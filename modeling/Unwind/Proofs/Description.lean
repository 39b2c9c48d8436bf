import Mathlib.Data.Fintype.Card
import Mathlib.Data.Fintype.Basic
import Mathlib.Data.Finset.Card
import Unwind.Description

/-!
# The names that descriptions hold

A host has several records and passes them in any order, each as often as it likes. Every name that
is made belongs to the record it was made for until that is passed again, which frees it. So the
tally of names counts the records that hold one (`names_released`).
-/

namespace Unwind

namespace Names

variable (names : Names)

theorem get?_add_same (text : Bytes) : (names.add text).2.get? names.made = some text := by
  simp [get?, add]

theorem get?_add_other (text : Bytes) {number : Nat} (h : number ≠ names.made) :
    (names.add text).2.get? number = names.get? number := by
  simp [get?, add, h.symm]

theorem get?_free_same (number : Nat) : (names.free number).get? number = none := by
  simp [get?, free]

theorem get?_free_other {freed number : Nat} (h : number ≠ freed) :
    (names.free freed).get? number = names.get? number := by
  unfold get? free
  dsimp only
  rw [List.find?_filter]
  congr 2
  funext entry
  grind

/-- The names without the one that a record holds, if it holds one. -/
def freeHeld (held : Option Nat) : Names := held.elim names names.free

@[simp] theorem freeHeld_made (held : Option Nat) : (names.freeHeld held).made = names.made := by
  cases held <;> rfl

theorem freeHeld_freed (held : Option Nat) :
    (names.freeHeld held).freed = held.toList ++ names.freed := by
  cases held <;> rfl

theorem get?_freeHeld {held : Option Nat} {number : Nat} (h : held ≠ some number) :
    (names.freeHeld held).get? number = names.get? number := by
  cases held with
  | none => rfl
  | some freed => exact names.get?_free_other fun heq => h (congrArg some heq.symm)

end Names

/-- What is read where a description points: nothing if there is no text, or no longer. -/
def DescribedText.read (names : Names) : DescribedText → Option Bytes
  | .absent => none
  | .unknown => some [0x3f]
  | .lasting text => some text
  | .named number => names.get? number

/-- The name of the function in a resolution, and a question mark if it is not known. -/
def Resolution.shown (r : Resolution) : Bytes := r.function.elim [0x3f] FunctionName.text

namespace Description

variable (d : Description) (names : Names)

theorem serve_eq (resolve : UInt64 → Resolution) :
    d.serve resolve names =
      if d.pc = 0 then ({ d with held := none }, names.freeHeld d.held)
      else enter { d with held := none } (names.freeHeld d.held) (resolve d.pc) := by
  have hletGo : d.letGo names = ({ d with held := none }, names.freeHeld d.held) := by
    obtain ⟨pc, file, line, function, entry, more, held⟩ := d
    cases held <;> rfl
  rw [serve, hletGo]
  simp

theorem enter_owned {r : Resolution} {text : Bytes} (h : r.function = some (.owned text)) :
    (d.enter names r).1.held = some names.made ∧
      (d.enter names r).1.function = .named names.made ∧
      (d.enter names r).2 = (names.add text).2 := by
  unfold enter
  rw [h]
  exact ⟨rfl, rfl, rfl⟩

theorem enter_lasting {r : Resolution} (h : ∀ text, r.function ≠ some (.owned text)) :
    (d.enter names r).1.held = d.held ∧ (d.enter names r).2 = names := by
  unfold enter
  cases hfunction : r.function with
  | none => exact ⟨rfl, rfl⟩
  | some name =>
    cases name with
    | borrowed => exact ⟨rfl, rfl⟩
    | owned text => exact absurd hfunction (h text)

theorem enter_read (r : Resolution) :
    (d.enter names r).1.function.read (d.enter names r).2 = some r.shown := by
  unfold enter Resolution.shown
  cases r.function with
  | none => rfl
  | some name =>
    cases name with
    | borrowed => rfl
    | owned text => exact names.get?_add_same text

end Description

/-- A call that has a pc described. -/
structure DescriptionCall (ι : Type) where
  who : ι
  /-- the record as the host passes it, except for the held name, which hosts leave alone -/
  given : Description
  /-- what is known about addresses at that time -/
  source : UInt64 → Resolution

structure Descriptions (ι : Type) where
  record : ι → Description
  names : Names

variable {ι : Type} [DecidableEq ι]

namespace Descriptions

/-- Records before their first use, in a process in which others have names. -/
def new (names : Names) : Descriptions ι := ⟨fun _ => .new, names⟩

def held (s : Descriptions ι) (a : ι) : Option Nat := (s.record a).held

def serve (s : Descriptions ι) (c : DescriptionCall ι) : Descriptions ι :=
  let (d, names) := { c.given with held := s.held c.who }.serve c.source s.names
  ⟨Function.update s.record c.who d, names⟩

def run (s : Descriptions ι) (calls : List (DescriptionCall ι)) : Descriptions ι :=
  calls.foldl serve s

theorem record_serve (s : Descriptions ι) (c : DescriptionCall ι) :
    (s.serve c).record c.who =
      ({ c.given with held := s.held c.who }.serve c.source s.names).1 :=
  Function.update_self _ _ _

theorem held_serve (s : Descriptions ι) (c : DescriptionCall ι) :
    (s.serve c).held = Function.update s.held c.who ((s.serve c).record c.who).held := by
  funext a
  rw [record_serve]
  exact Function.apply_update (fun _ => Description.held) s.record c.who _ a

/-- What a call does: it frees the name that its record holds, and the record is left with a name
made for it or with none. -/
theorem serve_cases (s : Descriptions ι) (c : DescriptionCall ι) :
    (∃ text, c.given.pc ≠ 0 ∧ (c.source c.given.pc).function = some (.owned text) ∧
      (s.serve c).names = ((s.names.freeHeld (s.held c.who)).add text).2 ∧
      (s.serve c).held = Function.update s.held c.who (some s.names.made)) ∨
    ((c.given.pc = 0 ∨ ∀ text, (c.source c.given.pc).function ≠ some (.owned text)) ∧
      (s.serve c).names = s.names.freeHeld (s.held c.who) ∧
      (s.serve c).held = Function.update s.held c.who none) := by
  rw [held_serve, record_serve]
  unfold serve
  dsimp only
  rw [Description.serve_eq]
  by_cases hpc : c.given.pc = 0
  · rw [if_pos hpc]
    exact .inr ⟨.inl hpc, rfl, rfl⟩
  · rw [if_neg hpc]
    by_cases howned : ∃ text, (c.source c.given.pc).function = some (.owned text)
    · obtain ⟨text, htext⟩ := howned
      obtain ⟨hheld, -, hnames⟩ := Description.enter_owned { c.given with held := none }
        (s.names.freeHeld (s.held c.who)) htext
      rw [Names.freeHeld_made] at hheld
      exact .inl ⟨text, hpc, htext, hnames, congrArg _ hheld⟩
    · rw [not_exists] at howned
      obtain ⟨hheld, hnames⟩ := Description.enter_lasting { c.given with held := none }
        (s.names.freeHeld (s.held c.who)) howned
      exact .inr ⟨.inr howned, hnames, congrArg _ hheld⟩

/-- A call frees what its record held, and nothing else. -/
theorem freed_serve (s : Descriptions ι) (c : DescriptionCall ι) :
    (s.serve c).names.freed = (s.held c.who).toList ++ s.names.freed := by
  obtain ⟨text, -, -, hnames, -⟩ | ⟨-, hnames, -⟩ := s.serve_cases c
  · rw [hnames]
    exact s.names.freeHeld_freed _
  · rw [hnames]
    exact s.names.freeHeld_freed _

theorem held_serve_none (s : Descriptions ι) {c : DescriptionCall ι}
    (h : c.given.pc = 0 ∨ ∀ text, (c.source c.given.pc).function ≠ some (.owned text)) :
    (s.serve c).held c.who = none := by
  obtain ⟨text, hpc, htext, -⟩ | ⟨-, -, hheld⟩ := s.serve_cases c
  · obtain hzero | hlasting := h
    · exact absurd hzero hpc
    · exact absurd htext (hlasting text)
  · rw [hheld, Function.update_self]

theorem serve_owned (s : Descriptions ι) {c : DescriptionCall ι} (hpc : c.given.pc ≠ 0)
    {text : Bytes} (htext : (c.source c.given.pc).function = some (.owned text)) :
    (s.serve c).held c.who = some s.names.made ∧
      ((s.serve c).record c.who).function = .named s.names.made := by
  obtain ⟨hheld, hfunction, -⟩ := Description.enter_owned { c.given with held := none }
    (s.names.freeHeld (s.held c.who)) htext
  rw [Names.freeHeld_made] at hheld hfunction
  rw [held, record_serve, Description.serve_eq, if_neg hpc]
  exact ⟨hheld, hfunction⟩

theorem read_serve (s : Descriptions ι) {c : DescriptionCall ι} (hpc : c.given.pc ≠ 0) :
    ((s.serve c).record c.who).function.read (s.serve c).names =
      some (c.source c.given.pc).shown := by
  rw [record_serve]
  unfold serve
  dsimp only
  rw [Description.serve_eq, if_neg hpc]
  exact Description.enter_read _ _ _

end Descriptions

theorem update_none_eq_some {held : ι → Option Nat} {a b : ι} {number : Nat} :
    Function.update held a none b = some number ↔ b ≠ a ∧ held b = some number := by
  obtain rfl | hne := eq_or_ne b a
  · simp
  · simp [hne]

theorem update_some_eq_some {held : ι → Option Nat} {a b : ι} {made number : Nat} :
    Function.update held a (some made) b = some number ↔
      b = a ∧ made = number ∨ b ≠ a ∧ held b = some number := by
  obtain rfl | hne := eq_or_ne b a
  · simp
  · simp [hne]

variable [Fintype ι]

def holders (held : ι → Option Nat) : Finset ι := Finset.univ.filter fun a => (held a).isSome

omit [DecidableEq ι] in
theorem mem_holders {held : ι → Option Nat} {a : ι} : a ∈ holders held ↔ (held a).isSome := by
  simp [holders]

theorem holders_update_none (held : ι → Option Nat) (a : ι) :
    holders (Function.update held a none) = (holders held).erase a := by
  ext b
  obtain rfl | hne := eq_or_ne b a
  · simp [mem_holders]
  · simp [mem_holders, hne]

theorem holders_update_some (held : ι → Option Nat) (a : ι) (number : Nat) :
    holders (Function.update held a (some number)) = insert a (holders held) := by
  ext b
  obtain rfl | hne := eq_or_ne b a
  · simp [mem_holders]
  · simp [mem_holders, hne]

/-- How the names stand to the records that hold them, where `old` were the names at first. -/
structure Names.Accounted (old names : Names) (held : ι → Option Nat) : Prop where
  tally : names.outstanding = old.outstanding + .ofNat (holders held).card
  range : ∀ a number, held a = some number → old.made ≤ number ∧ number < names.made
  unshared : ∀ a b number, held a = some number → held b = some number → a = b
  /-- what is held has not been freed -/
  kept : ∀ a number, held a = some number → names.freed.count number = old.freed.count number
  /-- what has been made and is not held has been freed once -/
  freed : ∀ number, old.made ≤ number → number < names.made → (∀ a, held a ≠ some number) →
    names.freed.count number = old.freed.count number + 1 ∧ names.get? number = none
  /-- what has not been made has not been freed -/
  unmade : ∀ number, names.made ≤ number → names.freed.count number = old.freed.count number
  grown : old.made ≤ names.made

namespace Names.Accounted

variable {old names : Names} {held : ι → Option Nat}

omit [DecidableEq ι] in
theorem refl (names : Names) : Accounted names names fun _ : ι => none where
  tally := by simp [holders]
  range := nofun
  unshared := nofun
  kept := nofun
  freed _ hle hlt := absurd hlt (Nat.not_lt.mpr hle)
  unmade _ _ := rfl
  grown := le_rfl

/-- A record that lets go of its name has it freed. -/
theorem letGo (h : old.Accounted names held) (a : ι) :
    old.Accounted (names.freeHeld (held a)) (Function.update held a none) := by
  cases ha : held a with
  | none =>
    rw [← ha, Function.update_eq_self, ha]
    exact h
  | some number =>
    have hrange := h.range a number ha
    -- Nobody else holds the number, so the others keep what they hold.
    have hothers : ∀ b other, Function.update held a none b = some other →
        held b = some other ∧ number ≠ other := by
      intro b other hb
      obtain ⟨hne, hb⟩ := update_none_eq_some.mp hb
      exact ⟨hb, fun heq => hne (h.unshared b a other hb (heq ▸ ha))⟩
    constructor
    case tally =>
      have hmem : a ∈ holders held := mem_holders.mpr (by rw [ha]; rfl)
      have hcard := Finset.card_erase_add_one hmem
      rw [holders_update_none]
      change names.outstanding - 1 = _
      rw [h.tally, ← hcard, UInt64.ofNat_add]
      grind
    case range => exact fun b other hb => h.range b other (hothers b other hb).1
    case unshared =>
      exact fun b b' other hb hb' =>
        h.unshared b b' other (hothers b other hb).1 (hothers b' other hb').1
    case kept =>
      intro b other hb
      obtain ⟨hb, hne⟩ := hothers b other hb
      exact (List.count_cons_of_ne hne).trans (h.kept b other hb)
    case freed =>
      intro other hle hlt hfree
      by_cases heq : number = other
      · -- What was held had not been freed, so this is the one time.
        subst heq
        exact ⟨List.count_cons_self.trans (congrArg (· + 1) (h.kept a number ha)),
          names.get?_free_same number⟩
      · have hunheld : ∀ b, held b ≠ some other := by
          intro b hb
          refine hfree b (update_none_eq_some.mpr ⟨?_, hb⟩)
          rintro rfl
          exact heq (Option.some.inj (ha.symm.trans hb))
        obtain ⟨hcount, hget⟩ := h.freed other hle hlt hunheld
        exact ⟨(List.count_cons_of_ne heq).trans hcount,
          (names.get?_free_other (Ne.symm heq)).trans hget⟩
    case unmade =>
      intro other hle
      have hne : number ≠ other := by have : names.made ≤ other := hle; omega
      exact (List.count_cons_of_ne hne).trans (h.unmade other hle)
    case grown => exact h.grown

/-- A record that holds nothing is given a new name. -/
theorem add (h : old.Accounted names held) {a : ι} (ha : held a = none) (text : Bytes) :
    old.Accounted (names.add text).2 (Function.update held a (some names.made)) := by
  have hgrown := h.grown
  -- The number is a new one. `unmade` says that it has not been freed either.
  have hfresh : ∀ b, held b ≠ some names.made := fun b hb =>
    Nat.lt_irrefl _ (h.range b names.made hb).2
  constructor
  case tally =>
    have hmem : a ∉ holders held := by rw [mem_holders, ha]; nofun
    rw [holders_update_some, Finset.card_insert_of_notMem hmem, UInt64.ofNat_add]
    change names.outstanding + 1 = _
    rw [h.tally]
    grind
  case range =>
    intro b number hb
    change _ ∧ number < names.made + 1
    obtain ⟨-, rfl⟩ | ⟨-, hb⟩ := update_some_eq_some.mp hb
    · omega
    · have := h.range b number hb
      omega
  case unshared =>
    intro b b' number hb hb'
    obtain ⟨rfl, rfl⟩ | ⟨-, hb⟩ := update_some_eq_some.mp hb
    · obtain ⟨rfl, -⟩ | ⟨-, hb'⟩ := update_some_eq_some.mp hb'
      · rfl
      · exact absurd hb' (hfresh b')
    · obtain ⟨-, rfl⟩ | ⟨-, hb'⟩ := update_some_eq_some.mp hb'
      · exact absurd hb (hfresh b)
      · exact h.unshared b b' number hb hb'
  case kept =>
    intro b number hb
    obtain ⟨-, rfl⟩ | ⟨-, hb⟩ := update_some_eq_some.mp hb
    · exact h.unmade names.made le_rfl
    · exact h.kept b number hb
  case freed =>
    intro number hle hlt hfree
    have hne : number ≠ names.made := fun heq =>
      hfree a (update_some_eq_some.mpr (.inl ⟨rfl, heq.symm⟩))
    have hunheld : ∀ b, held b ≠ some number := by
      intro b hb
      refine hfree b (update_some_eq_some.mpr (.inr ⟨?_, hb⟩))
      rintro rfl
      rw [ha] at hb
      cases hb
    have hlt : number < names.made + 1 := hlt
    obtain ⟨hcount, hget⟩ := h.freed number hle (by omega) hunheld
    exact ⟨hcount, (names.get?_add_other text hne).trans hget⟩
  case unmade => exact fun number hle => h.unmade number (Nat.le_of_succ_le hle)
  case grown => exact Nat.le_succ_of_le hgrown

end Names.Accounted

namespace Descriptions

variable {old : Names} {s : Descriptions ι}

/-- What one call preserves. -/
theorem accounted_serve (h : old.Accounted s.names s.held) (c : DescriptionCall ι) :
    old.Accounted (s.serve c).names (s.serve c).held := by
  have hletGo := h.letGo c.who
  obtain ⟨text, -, -, hnames, hheld⟩ | ⟨-, hnames, hheld⟩ := s.serve_cases c
  · have hadd := hletGo.add (Function.update_self _ _ _) text
    rw [Function.update_idem, Names.freeHeld_made] at hadd
    rw [hnames, hheld]
    exact hadd
  · rw [hnames, hheld]
    exact hletGo

/-- What a run preserves. -/
theorem accounted_run (h : old.Accounted s.names s.held) (calls : List (DescriptionCall ι)) :
    old.Accounted (s.run calls).names (s.run calls).held := by
  induction calls generalizing s with
  | nil => exact h
  | cons c calls ih => exact ih (accounted_serve h c)

/-- A name stays with its record, and is not freed, while only other records are passed. -/
theorem run_others (h : old.Accounted s.names s.held) {a : ι} {number : Nat}
    (ha : s.held a = some number) {calls : List (DescriptionCall ι)}
    (hothers : ∀ c ∈ calls, c.who ≠ a) :
    (s.run calls).held a = some number ∧ (s.run calls).names.get? number = s.names.get? number := by
  induction calls generalizing s with
  | nil => exact ⟨ha, rfl⟩
  | cons c calls ih =>
    have hne : c.who ≠ a := hothers c List.mem_cons_self
    have hkeep : s.held c.who ≠ some number := fun heq => hne (h.unshared _ _ number heq ha)
    have hlt : number < s.names.made := (h.range a number ha).2
    have hstep : (s.serve c).held a = some number ∧
        (s.serve c).names.get? number = s.names.get? number := by
      obtain ⟨text, -, -, hnames, hheld⟩ | ⟨-, hnames, hheld⟩ := s.serve_cases c
      · rw [hnames, hheld, Function.update_of_ne hne.symm,
          Names.get?_add_other _ _ (by rw [Names.freeHeld_made]; omega),
          Names.get?_freeHeld _ hkeep]
        exact ⟨ha, rfl⟩
      · rw [hnames, hheld, Function.update_of_ne hne.symm, Names.get?_freeHeld _ hkeep]
        exact ⟨ha, rfl⟩
    obtain ⟨hheld, hget⟩ := ih (accounted_serve h c) hstep.1
      fun d hd => hothers d (List.mem_cons_of_mem c hd)
    exact ⟨hheld, hget.trans hstep.2⟩

omit [Fintype ι] in
/-- A record that is passed loses its name, and no call gives an old name to a record. -/
theorem held_serve_old {c : DescriptionCall ι} {a : ι} {number : Nat} (hlt : number < s.names.made)
    (ha : (s.serve c).held a = some number) : a ≠ c.who ∧ s.held a = some number := by
  obtain ⟨text, -, -, -, hheld⟩ | ⟨-, -, hheld⟩ := s.serve_cases c
  · rw [hheld] at ha
    obtain ⟨-, rfl⟩ | hold := update_some_eq_some.mp ha
    · exact absurd hlt (Nat.lt_irrefl _)
    · exact hold
  · rw [hheld] at ha
    exact update_none_eq_some.mp ha

omit [Fintype ι] in
theorem made_le_serve (s : Descriptions ι) (c : DescriptionCall ι) :
    s.names.made ≤ (s.serve c).names.made := by
  obtain ⟨text, -, -, hnames, -⟩ | ⟨-, hnames, -⟩ := s.serve_cases c
  · rw [hnames]
    exact Nat.le_succ_of_le (Names.freeHeld_made _ _).ge
  · rw [hnames, Names.freeHeld_made]

omit [Fintype ι] in
/-- A name that nobody holds is never held again. -/
theorem run_unheld {number : Nat} (hlt : number < s.names.made)
    (hunheld : ∀ a, s.held a ≠ some number) (calls : List (DescriptionCall ι)) :
    number < (s.run calls).names.made ∧ ∀ a, (s.run calls).held a ≠ some number := by
  induction calls generalizing s with
  | nil => exact ⟨hlt, hunheld⟩
  | cons c calls ih =>
    exact ih (hlt.trans_le (made_le_serve s c)) fun a ha => hunheld a (held_serve_old hlt ha).2

theorem run_again (h : old.Accounted s.names s.held) {a : ι} {number : Nat}
    (ha : s.held a = some number) {calls : List (DescriptionCall ι)}
    (hagain : ∃ c ∈ calls, c.who = a) :
    number < (s.run calls).names.made ∧ ∀ b, (s.run calls).held b ≠ some number := by
  have hlt : number < s.names.made := (h.range a number ha).2
  induction calls generalizing s with
  | nil => obtain ⟨c, hc, -⟩ := hagain; cases hc
  | cons c calls ih =>
    by_cases hwho : c.who = a
    · -- The first call with the record; what follows cannot bring the name back.
      refine run_unheld (hlt.trans_le (made_le_serve s c)) (fun b hb => ?_) calls
      obtain ⟨hne, hb⟩ := held_serve_old hlt hb
      exact hne ((h.unshared b a number hb ha).trans hwho.symm)
    · obtain ⟨d, hd, hwho'⟩ := hagain
      have hd : d ∈ calls := (List.mem_cons.mp hd).resolve_left (by rintro rfl; exact hwho hwho')
      have hothers : ∀ d ∈ [c], d.who ≠ a := by simpa using hwho
      have hkeep : (s.serve c).held a = some number := (run_others h ha hothers).1
      exact ih (accounted_serve h c) hkeep ⟨d, hd, hwho'⟩ (hlt.trans_le (made_le_serve s c))

/-- What a call does after others, where `old` were the names before all of them. -/
structure Served (old : Names) (s : Descriptions ι) (c : DescriptionCall ι) : Prop where
  /-- As many names more than at first are there as records hold one. -/
  tally : (s.serve c).names.outstanding =
    old.outstanding + .ofNat (holders (s.serve c).held).card
  /-- The call frees what its record held, and nothing else. -/
  letGo : (s.serve c).names.freed = (s.held c.who).toList ++ s.names.freed
  /-- What the record then holds has not been freed and can be read until it is passed again, -/
  kept : ∀ number, (s.serve c).held c.who = some number →
    ∀ calls : List (DescriptionCall ι), (∀ d ∈ calls, d.who ≠ c.who) →
    ((s.serve c).run calls).names.freed.count number = old.freed.count number ∧
      ((s.serve c).run calls).names.get? number = (s.serve c).names.get? number
  /-- and after that has been freed once, whatever follows. -/
  freed : ∀ number, (s.serve c).held c.who = some number →
    ∀ calls : List (DescriptionCall ι), (∃ d ∈ calls, d.who = c.who) →
    ((s.serve c).run calls).names.freed.count number = old.freed.count number + 1 ∧
      ((s.serve c).run calls).names.get? number = none
  /-- A call for pc zero leaves the record without a name. -/
  cleared : c.given.pc = 0 → (s.serve c).held c.who = none
  /-- Any other call leaves a function's name that can be read. -/
  described : c.given.pc ≠ 0 →
    ((s.serve c).record c.who).function.read (s.serve c).names =
      some (c.source c.given.pc).shown
  /-- It is held if it was made for the call, -/
  owned : c.given.pc ≠ 0 → ∀ text, (c.source c.given.pc).function = some (.owned text) →
    (s.serve c).held c.who = some s.names.made ∧
      ((s.serve c).record c.who).function = .named s.names.made
  /-- and nothing is held otherwise. -/
  lasting : (∀ text, (c.source c.given.pc).function ≠ some (.owned text)) →
    (s.serve c).held c.who = none

/-- Whatever records have been passed before, no name is lost and none is freed twice. -/
theorem names_released (names : Names) (before : List (DescriptionCall ι))
    (c : DescriptionCall ι) : Served names ((new names).run before) c := by
  have hbefore : names.Accounted ((new names).run before).names ((new names).run before).held :=
    accounted_run (.refl names) before
  generalize (new names).run before = s at hbefore ⊢
  have hafter := accounted_serve hbefore c
  constructor
  case tally => exact hafter.tally
  case letGo => exact s.freed_serve c
  case kept =>
    intro number hheld calls hothers
    obtain ⟨hstill, hget⟩ := run_others hafter hheld hothers
    exact ⟨(accounted_run hafter calls).kept c.who number hstill, hget⟩
  case freed =>
    intro number hheld calls hagain
    obtain ⟨hlt, hunheld⟩ := run_again hafter hheld hagain
    exact (accounted_run hafter calls).freed number (hafter.range c.who number hheld).1 hlt hunheld
  case cleared => exact fun hpc => s.held_serve_none (.inl hpc)
  case described => exact s.read_serve
  case owned => exact fun hpc text htext => s.serve_owned hpc htext
  case lasting => exact fun hlasting => s.held_serve_none (.inr hlasting)

end Descriptions

end Unwind
