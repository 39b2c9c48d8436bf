import Unwind.Proofs.CodeMap
import Unwind.Proofs.RuleTable.Record
import Unwind.Proofs.Walk.Cursor

/-!
# The rule that a step applies

A step looks its rule up twice: the code map has the module, the module's table the entry. Where the
code of the modules lies apart and their tables are in order, the two searches by halving find what
going through all modules and all entries finds, in whatever order the modules were given.
-/

namespace Unwind

namespace Module

/-- The last entry of the module's table that is in force at an address. The distance from the image
base is cut to 32 bits. -/
def entry? (m : Module) (a : UInt64) : Option Rule :=
  if m.imageBase ≤ a then Rule.lastUpTo m.table.toList (a - m.imageBase).toUInt32 else none

theorem row_findRule {m : Module} (ascending : Rule.Ascending m.table.toList) (a : UInt64) :
    (m.findRule a).row = ((m.entry? a).getD .default).row := by
  rw [findRule, entry?]
  by_cases habove : m.imageBase ≤ a
  · rw [if_neg (UInt64.not_lt.mpr habove), if_pos habove, Rule.row_find ascending]
    cases Rule.lastUpTo m.table.toList (a - m.imageBase).toUInt32 with
    | none => rfl
    | some r => rfl
  · rw [if_pos (UInt64.not_le.mp habove), if_neg habove]
    rfl

end Module

/-- Where a rule starts makes no difference to a step. -/
theorem Context.step_congr (ctx : Context) (memory : Memory) (limits : Limits) (bottom : UInt64)
    {r s : Rule} (h : r.row = s.row) :
    ctx.step memory limits bottom r = ctx.step memory limits bottom s := by
  unfold Context.step
  rw [h]

namespace Walker

variable {w : Walker} {modules : List Module} {a : UInt64}

theorem ruleAt_of_contains (hw : w.code = some (.ofModules modules))
    (apart : CodeMap.Apart modules) {m : Module} (hm : m ∈ modules)
    (hcontains : m.contains a = true) : w.ruleAt a = m.findRule a := by
  have hlookup := apart.lookup_eq_some_iff.mpr ⟨hm, hcontains⟩
  unfold ruleAt
  rw [hw, Option.bind_some, hlookup]

theorem ruleAt_of_forall_not (hw : w.code = some (.ofModules modules))
    (apart : CodeMap.Apart modules) (hnone : ∀ m ∈ modules, ¬ m.contains a = true) :
    w.ruleAt a = .default := by
  have hlookup : (CodeMap.ofModules modules).lookup a = none := by
    rw [Option.eq_none_iff_forall_ne_some]
    intro m hfound
    obtain ⟨hm, hcontains⟩ := apart.lookup_eq_some_iff.mp hfound
    exact hnone m hm hcontains
  unfold ruleAt
  rw [hw, Option.bind_some, hlookup]

end Walker

namespace Cursor

/-- The step from `c` goes by the tables of the modules: by the last entry in force at `a` of a
module around `a`, and by the default without such an entry. -/
structure AppliesEntry (w : Walker) (modules : List Module) (c : Cursor) (a : UInt64) : Prop where
  entry : ∀ m ∈ modules, m.contains a = true → ∀ r, m.entry? a = some r →
    c.step w = c.context.step w.memory w.limits c.bottom r
  noEntry : (∀ m ∈ modules, m.contains a = true → m.entry? a = none) →
    c.step w = c.context.step w.memory w.limits c.bottom .default

variable {w : Walker} {modules order : List Module}

theorem appliesEntry_lookupPc (hw : w.code = some (.ofModules modules))
    (apart : CodeMap.Apart modules)
    (ascending : ∀ m ∈ modules, Rule.Ascending m.table.toList) (c : Cursor) :
    c.AppliesEntry w modules c.lookupPc where
  entry m hm hcontains r hr := by
    apply Context.step_congr
    rw [Walker.ruleAt_of_contains hw apart hm hcontains, Module.row_findRule (ascending m hm), hr]
    rfl
  noEntry hnone := by
    apply Context.step_congr
    by_cases hcode : ∃ m ∈ modules, m.contains c.lookupPc = true
    · obtain ⟨m, hm, hcontains⟩ := hcode
      rw [Walker.ruleAt_of_contains hw apart hm hcontains, Module.row_findRule (ascending m hm),
        hnone m hm hcontains]
      rfl
    · rw [Walker.ruleAt_of_forall_not hw apart fun m hm hcontains => hcode ⟨m, hm, hcontains⟩]

/-- Modules that lie apart, with tables in order, may be given in any order. The first step looks up
the pc, all later ones look up the address in front of it. -/
theorem appliesEntry_nth (apart : CodeMap.Apart modules)
    (ascending : ∀ m ∈ modules, Rule.Ascending m.table.toList) (perm : order.Perm modules)
    (hw : w.code = some (.ofModules order)) (ctx : Context) :
    CodeMap.ofModules order = .ofModules modules ∧
      (start w.limits ctx).AppliesEntry w modules ctx.pc ∧
      ∀ n, ((start w.limits ctx).nth w (n + 1)).AppliesEntry w modules
        (((start w.limits ctx).nth w (n + 1)).context.pc - 1) := by
  have hmap : CodeMap.ofModules order = .ofModules modules :=
    congrArg (fun sorted => CodeMap.mk sorted.toArray) (apart.sorted_congr perm)
  have happlies := appliesEntry_lookupPc (hmap ▸ hw) apart ascending
  exact ⟨hmap, happlies _, fun n => happlies ((start w.limits ctx).nth w (n + 1))⟩

/-- Two modules that touch. Two entries of the one behind start at the same location. -/
def touching : List Module :=
  [⟨"front", 0x400000, ⟨0x401000, 0x402000⟩, #[⟨0x1800, .atEntry⟩, ⟨0x1f00, .linked⟩]⟩,
    ⟨"behind", 0x402000, ⟨0x402000, 0x403000⟩,
      #[⟨0, .atEntry⟩, ⟨0x10, .linked⟩, ⟨0x10, ⟨.sp, 16, .saved (-16)⟩⟩]⟩]

/-- The return address of the first frame is where the module behind starts. -/
def touchingWalker : Walker where
  code := some (.ofModules touching.reverse)
  limits := .default
  memory a := if a = 0x7000 then 0x7040 else if a = 0x7008 then 0x402000 else 0

def touchingCursor : Cursor :=
  start touchingWalker.limits ⟨0x402010, 0x7000, 0x7040⟩

theorem appliesEntry_touching :
    touchingCursor.step touchingWalker = touchingCursor.context.step touchingWalker.memory
      .default touchingCursor.bottom ⟨0x10, ⟨.sp, 16, .saved (-16)⟩⟩ ∧
    (touchingCursor.nth touchingWalker 1).context = ⟨0x402000, 0x7010, 0x7040⟩ ∧
    (touchingCursor.nth touchingWalker 1).step touchingWalker =
      Context.step ⟨0x402000, 0x7010, 0x7040⟩ touchingWalker.memory .default
        touchingCursor.bottom ⟨0x1f00, .linked⟩ := by
  have apart : CodeMap.Apart touching := ⟨by decide, by decide⟩
  obtain ⟨-, hfirst, hlater⟩ := appliesEntry_nth (w := touchingWalker) apart (by decide)
    (List.reverse_perm _) rfl ⟨0x402010, 0x7000, 0x7040⟩
  have hstep := hfirst.entry _ (List.mem_cons_of_mem _ List.mem_cons_self) (by decide) _ rfl
  have hcontext : (touchingCursor.nth touchingWalker 1).context = ⟨0x402000, 0x7010, 0x7040⟩ := by
    show (touchingCursor.step touchingWalker).context = _
    rw [touchingCursor, hstep]
    decide
  refine ⟨hstep, hcontext, ?_⟩
  have hnext := (hlater 0).entry ⟨"front", 0x400000, ⟨0x401000, 0x402000⟩, _⟩ List.mem_cons_self
  rw [← touchingCursor, hcontext] at hnext
  exact hnext (by decide) _ rfl

end Cursor

end Unwind
