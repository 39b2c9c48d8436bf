import Mathlib.Data.List.Basic
import Mathlib.Data.Option.Basic
import Unwind.Host

/-!
# Faults of a process from its start

A process lives through attempts to install the fault handler, guarded loads and faults of other
code, in any order. The first attempt decides whether loads are protected from then on, and the
action that was in place before is the one that all faults of other code run (`faults_answered`).
-/

namespace Unwind

namespace GuardedLoad

variable {g : GuardedLoad} {file : RegisterFile}

/-- The code of the guarded load, wherever its entry lies: the load itself, a return, and padding in
which there is no other load. Behind the padding the next function starts, with a load of its own. -/
structure LaidOut (g : GuardedLoad) : Prop where
  load : (g.code g.entry, g.code (g.entry + 1), g.code (g.entry + 2)) = (0x48, 0x8b, 0x07)
  ret : g.code (g.entry + 3) = 0xc3
  padding : ∀ k < 15, 4 ≤ k →
    (g.code (g.entry + UInt64.ofNat k), g.code (g.entry + UInt64.ofNat k + 1)) ≠ loadStart
  next : g.code (g.entry + 16) = 0x48

/-- No load starts in the padding. Its last byte may be the first of a load, but the byte behind it
is not the second. -/
theorem LaidOut.padding_ne (hg : g.LaidOut) {k : Nat} (hpos : 4 ≤ k) (hk : k < 16) :
    (g.code (g.entry + UInt64.ofNat k), g.code (g.entry + UInt64.ofNat k + 1)) ≠ loadStart := by
  by_cases hlast : k < 15
  · exact hg.padding k hlast hpos
  · obtain rfl : k = 15 := by omega
    have hbehind : g.entry + UInt64.ofNat 15 + 1 = g.entry + 16 := by
      rw [UInt64.add_assoc]
      rfl
    rw [hbehind, hg.next]
    simp [loadStart]

theorem LaidOut.instructionSize_entry (hg : g.LaidOut) : g.instructionSize g.entry = 3 := by
  have hload := hg.load
  simp only [Prod.mk.injEq] at hload
  simp [instructionSize, loadStart, loadSize, hload]

/-- Behind its entry the guarded load has no other load. -/
theorem LaidOut.instructionSize_behind (hg : g.LaidOut) {k : Nat} (hpos : 0 < k) (hk : k < 16) :
    g.instructionSize (g.entry + UInt64.ofNat k) = 0 := by
  have hload := hg.load
  simp only [Prod.mk.injEq] at hload
  have hother :
      (g.code (g.entry + UInt64.ofNat k), g.code (g.entry + UInt64.ofNat k + 1)) ≠ loadStart := by
    by_cases hpadding : 4 ≤ k
    · exact hg.padding_ne hpadding hk
    · obtain rfl | rfl | rfl : k = 1 ∨ k = 2 ∨ k = 3 := by omega
      · simp [loadStart, hload]
      · simp [loadStart, hload]
      · simp [loadStart, hg.ret]
  rw [instructionSize, if_neg (by simpa using hother)]

/-- The registers after a fault at the entry has been stepped over. -/
def resumed (g : GuardedLoad) (file : RegisterFile) : RegisterFile :=
  Architecture.amd64.setResult (Architecture.amd64.setPc file (g.entry + 3)) 0

/-- Of all faults only those at the entry are the guarded load's own. -/
theorem LaidOut.resume?_eq (hg : g.LaidOut) (file : RegisterFile) :
    g.resume? file =
      if file Architecture.amd64.pc = g.entry then some (g.resumed file) else none := by
  unfold resume?
  by_cases hentry : file Architecture.amd64.pc = g.entry
  · simp [hentry, hg.instructionSize_entry, window, resumed]
  · dsimp only
    rw [if_neg hentry, if_neg]
    rw [Bool.and_eq_true, decide_eq_true_iff, decide_eq_true_iff]
    rintro ⟨hwindow, hsize⟩
    -- The window is wider than the load: a fault behind the entry is examined and refused.
    set k := (file Architecture.amd64.pc - g.entry).toNat with hk
    have hpc : file Architecture.amd64.pc = g.entry + UInt64.ofNat k := by
      rw [hk, UInt64.ofNat_toNat]
      grind
    have hpos : 0 < k := by
      refine Nat.pos_of_ne_zero fun hzero => hentry ?_
      rw [hpc, hzero]
      exact UInt64.add_zero _
    rw [hpc, hg.instructionSize_behind hpos (UInt64.lt_iff_toNat_lt.mp hwindow)] at hsize
    exact absurd hsize (by decide)

end GuardedLoad

/-- The call of a foreign handler that a fault makes under an action. -/
def SignalAction.call? : SignalAction → Option ForeignCall
  | .foreign handler detailed =>
    some ⟨handler, segmentationFault, if detailed then some (true, true) else none⟩
  | _ => none

namespace Signals

variable {g : GuardedLoad} {s : Signals} {action : SignalAction}

/-- The states of a process that had the given action in place before the tracer's handler. -/
structure Settled (action : SignalAction) (s : Signals) : Prop where
  foreign : action ≠ .guard
  action_eq : s.action = if s.installed then .guard else action
  saved_eq : s.saved = if s.installed then some action else none
  delivered : s.pending = false

theorem settled_new (haction : action ≠ .guard) : (new action).Settled action :=
  ⟨haction, rfl, rfl, rfl⟩

theorem Settled.with_calls (hs : s.Settled action) (calls : List ForeignCall) :
    Settled action { s with calls } :=
  ⟨hs.foreign, hs.action_eq, hs.saved_eq, hs.delivered⟩

/-- Passing a fault on calls the handler that was in place before; where there was none, the default
action is restored and the fault raised again. -/
theorem Settled.chain_eq (hs : s.Settled action) (hinstalled : s.installed = true) :
    s.chain segmentationFault true true =
      match action.call? with
      | some call => { s with calls := call :: s.calls }
      | none => { s with action := .default, pending := true } := by
  have hsaved := hs.saved_eq
  rw [if_pos hinstalled] at hsaved
  cases action with
  | foreign handler detailed => cases detailed <;> simp [chain, hsaved, SignalAction.call?]
  | default | ignore | guard => simp [chain, hsaved, SignalAction.call?]

/-- A fault of other code leaves the registers as they are and is passed on. -/
theorem Settled.handle_elsewhere (hs : s.Settled action) (hinstalled : s.installed = true)
    (hg : g.LaidOut) {file : RegisterFile} (helsewhere : file Architecture.amd64.pc ≠ g.entry) :
    s.handle g segmentationFault true (some file) =
      (some file, match action.call? with
        | some call => { s with calls := call :: s.calls }
        | none => { s with action := .default, pending := true }) := by
  rw [← hs.chain_eq hinstalled]
  simp [handle, hg.resume?_eq, helsewhere]

/-- A fault of the guarded load is stepped over. -/
theorem Settled.deliver_entry (hs : s.Settled action) (hinstalled : s.installed = true)
    (hg : g.LaidOut) {file : RegisterFile} (hentry : file Architecture.amd64.pc = g.entry) :
    s.deliver g file = some (g.resumed file, s) := by
  have haction : s.action = .guard := by rw [hs.action_eq, if_pos hinstalled]
  simp [deliver, haction, handle, hg.resume?_eq, hentry, hs.delivered]

/-- A fault of other code calls the foreign handler once, and without one ends the process. -/
theorem Settled.deliver_elsewhere (hs : s.Settled action) (hg : g.LaidOut) {file : RegisterFile}
    (helsewhere : file Architecture.amd64.pc ≠ g.entry) :
    s.deliver g file =
      action.call?.map fun call => (file, { s with calls := call :: s.calls }) := by
  cases hinstalled : s.installed with
  | true =>
    have haction : s.action = .guard := by rw [hs.action_eq, if_pos hinstalled]
    unfold deliver
    rw [haction]
    dsimp only
    rw [hs.handle_elsewhere hinstalled hg helsewhere]
    cases action.call? with
    | some call => simp [hs.delivered, haction, hinstalled]
    | none => simp
  | false =>
    -- The tracer has no part in this: the system itself runs the action.
    have haction : s.action = action := by rw [hs.action_eq, hinstalled]; rfl
    unfold deliver
    rw [haction]
    have hforeign := hs.foreign
    cases action with
    | foreign | default | ignore => simp [SignalAction.call?, hinstalled]
    | guard => contradiction

theorem atLoad_pc (g : GuardedLoad) (file : RegisterFile) (address : UInt64) :
    atLoad g file address Architecture.amd64.pc = g.entry := by
  have hother : Architecture.amd64.pc ≠ "rdi" := by decide
  rw [atLoad, RegisterFile.set_other _ _ hother]
  exact RegisterFile.set_same _ _ _

/-- A guarded load reads zero where there is nothing to read, and everywhere before the handler is
in place. It calls nobody. -/
theorem Settled.load_eq (hs : s.Settled action) (hg : g.LaidOut)
    (memory : UInt64 → Option UInt64) (file : RegisterFile) (address : UInt64) :
    s.load g memory file address =
      some (if s.installed then (memory address).getD 0 else 0, s) := by
  unfold load
  cases hinstalled : s.installed with
  | false => rfl
  | true =>
    rw [if_pos rfl, if_pos rfl]
    cases memory address with
    | some word => rfl
    | none =>
      dsimp only
      rw [hs.deliver_entry hinstalled hg (atLoad_pc g file address), Option.map_some]
      simp [GuardedLoad.resumed, Architecture.setResult]

/-- The first attempt to install the handler settles whether it is in place. -/
theorem Settled.install (hs : s.Settled action) {first : Option (Option Int32)}
    (hattempted : s.attempted = first.isSome) (hinstalled : s.installed = (first == some none))
    (refusal : Option Int32) :
    (s.install refusal).2.Settled action ∧
      (s.install refusal).2.attempted = true ∧
      (s.install refusal).2.installed = (first.or (some refusal) == some none) ∧
      (s.install refusal).2.calls = s.calls := by
  unfold Signals.install
  cases first with
  | some attempt =>
    have hattempted : s.attempted = true := hattempted
    rw [if_pos hattempted]
    exact ⟨hs, hattempted, hinstalled, rfl⟩
  | none =>
    have hattempted : s.attempted = false := hattempted
    have hinstalled : s.installed = false := hinstalled
    have haction : s.action = action := by rw [hs.action_eq, hinstalled]; rfl
    rw [hattempted]
    cases refusal with
    -- Only here is the action saved, and it is still the one from before.
    | none => exact ⟨⟨hs.foreign, rfl, congrArg some haction, hs.delivered⟩, rfl, rfl, rfl⟩
    | some errno =>
      exact ⟨⟨hs.foreign, hs.action_eq, hs.saved_eq, hs.delivered⟩, rfl, hinstalled, rfl⟩

end Signals

/-- What a process lives through. -/
inductive FaultEvent (g : GuardedLoad) where
  /-- an attempt to install the handler, which the system may refuse -/
  | install (refusal : Option Int32)
  /-- a call that starts the tracer -/
  | start (settings : Settings) (refusal : Option Int32) (memory : UInt64 → UInt8)
    (objects : List LoadedObject)
  /-- a guarded load; `memory` tells what can be read at that time -/
  | load (memory : UInt64 → Option UInt64) (file : RegisterFile) (address : UInt64)
  /-- a fault of other code -/
  | fault (file : RegisterFile) (elsewhere : file Architecture.amd64.pc ≠ g.entry)

namespace FaultEvent

variable {g : GuardedLoad}

def attempt? : FaultEvent g → Option (Option Int32)
  | install refusal => some refusal
  | start _ refusal _ _ => some refusal
  | load .. => none
  | fault .. => none

def isFault : FaultEvent g → Bool
  | fault .. => true
  | _ => false

/-- Whether guarded loads are protected after some events: the first attempt to install the handler
decides. -/
def protects (events : List (FaultEvent g)) : Bool :=
  events.findSome? attempt? == some none

end FaultEvent

namespace Host

variable {g : GuardedLoad} {action : SignalAction} {p p' : Host}

/-- A process after an event, unless it has ended. -/
def undergo (p : Host) : FaultEvent g → Option Host
  | .install refusal => some (p.install refusal).2
  | .start settings refusal memory objects => some (p.start settings refusal memory objects)
  | .load memory file address =>
    (p.signals.load g memory file address).map fun (_, signals) => { p with signals }
  | .fault file _ => (p.signals.deliver g file).map fun (_, signals) => { p with signals }

/-- A process after some events, unless it has ended. -/
def live (p : Host) (events : List (FaultEvent g)) : Option Host :=
  events.foldlM undergo p

/-- The states of a process in which `first` was the first attempt to install the handler, if there
was one, and other code has faulted `faults` times. -/
structure Settled (action : SignalAction) (first : Option (Option Int32)) (faults : Nat)
    (p : Host) : Prop where
  signals : p.signals.Settled action
  attempted : p.signals.attempted = first.isSome
  installed : p.signals.installed = (first == some none)
  /-- modules are known only after an attempt -/
  registered : p.code.isSome → first.isSome
  calls : p.signals.calls = action.call?.elim [] (List.replicate faults)

theorem settled_new (haction : action ≠ .guard) : (new action).Settled action none 0 where
  signals := Signals.settled_new haction
  attempted := rfl
  installed := rfl
  registered := nofun
  calls := by cases action <;> rfl

variable {first : Option (Option Int32)} {faults : Nat}

theorem Settled.install (hp : p.Settled action first faults) (refusal : Option Int32) :
    (p.install refusal).2.Settled action (first.or (some refusal)) faults := by
  obtain ⟨hsignals, hattempted, hinstalled, hcalls⟩ :=
    hp.signals.install hp.attempted hp.installed refusal
  have hsome : (first.or (some refusal)).isSome = true := by rw [Option.isSome_or]; simp
  exact ⟨hsignals, hattempted.trans hsome.symm, hinstalled, fun _ => hsome, hcalls.trans hp.calls⟩

theorem Settled.start (hp : p.Settled action first faults) (settings : Settings)
    (refusal : Option Int32) (memory : UInt64 → UInt8) (objects : List LoadedObject) :
    (p.start settings refusal memory objects).Settled action (first.or (some refusal)) faults := by
  unfold Host.start
  cases hcode : p.code with
  | some code =>
    -- The tracer has started before, and with that there has been an attempt.
    obtain ⟨attempt, rfl⟩ := Option.isSome_iff_exists.mp (hp.registered (by rw [hcode]; rfl))
    exact hp
  | none =>
    have hinstall := hp.install refusal
    refine ⟨hinstall.signals, hinstall.attempted, hinstall.installed, fun _ => ?_, hinstall.calls⟩
    rw [Option.isSome_or]
    simp

theorem Settled.undergo (hg : g.LaidOut) (hp : p.Settled action first faults) {e : FaultEvent g}
    (hp' : p.undergo e = some p') :
    p'.Settled action (first.or e.attempt?) (faults + if e.isFault then 1 else 0) := by
  cases e with
  | install refusal =>
    cases hp'
    exact hp.install refusal
  | start settings refusal memory objects =>
    cases hp'
    exact hp.start settings refusal memory objects
  | load memory file address =>
    unfold Host.undergo at hp'
    dsimp only at hp'
    rw [hp.signals.load_eq hg, Option.map_some] at hp'
    cases hp'
    rw [FaultEvent.attempt?, Option.or_none]
    exact hp
  | fault file helsewhere =>
    unfold Host.undergo at hp'
    dsimp only at hp'
    rw [hp.signals.deliver_elsewhere hg helsewhere, Option.map_map] at hp'
    obtain ⟨call, hcall, rfl⟩ := Option.map_eq_some_iff.mp hp'
    have hcalls := hp.calls
    rw [FaultEvent.attempt?, Option.or_none]
    refine ⟨hp.signals.with_calls _, hp.attempted, hp.installed, hp.registered, ?_⟩
    rw [hcall] at hcalls ⊢
    exact congrArg (call :: ·) hcalls

/-- Only a fault of other code ends a process, and only without a foreign handler. -/
theorem Settled.undergo_none (hg : g.LaidOut) (hp : p.Settled action first faults)
    {e : FaultEvent g} (hend : p.undergo e = none) : action.call? = none ∧ e.isFault = true := by
  cases e with
  | install => cases hend
  | start => cases hend
  | load memory file address =>
    unfold Host.undergo at hend
    dsimp only at hend
    rw [hp.signals.load_eq hg] at hend
    cases hend
  | fault file helsewhere =>
    unfold Host.undergo at hend
    dsimp only at hend
    rw [hp.signals.deliver_elsewhere hg helsewhere, Option.map_map] at hend
    exact ⟨Option.map_eq_none_iff.mp hend, rfl⟩

/-- What a run preserves. -/
theorem Settled.live (hg : g.LaidOut) {events : List (FaultEvent g)}
    (hp : p.Settled action first faults) (hp' : p.live events = some p') :
    p'.Settled action (first.or (events.findSome? FaultEvent.attempt?))
      (faults + events.countP FaultEvent.isFault) := by
  induction events generalizing p first faults with
  | nil =>
    cases hp'
    simpa using hp
  | cons e events ih =>
    unfold Host.live at hp'
    rw [List.foldlM_cons] at hp'
    obtain ⟨q, hq, hp'⟩ := Option.bind_eq_some_iff.mp hp'
    have := ih (hp.undergo hg hq) hp'
    rw [Option.or_assoc, Nat.add_assoc, Nat.add_comm (ite _ _ _)] at this
    rw [List.countP_cons]
    cases hattempt : e.attempt? with
    | none => simpa [List.findSome?_cons, hattempt] using this
    | some attempt => simpa [List.findSome?_cons, hattempt] using this

theorem Settled.live_none (hg : g.LaidOut) {events : List (FaultEvent g)}
    (hp : p.Settled action first faults) (hend : p.live events = none) :
    action.call? = none ∧ events.any FaultEvent.isFault = true := by
  induction events generalizing p first faults with
  | nil => cases hend
  | cons e events ih =>
    unfold Host.live at hend
    rw [List.foldlM_cons] at hend
    rw [List.any_cons, Bool.or_eq_true]
    cases hnext : p.undergo e with
    | none =>
      obtain ⟨hcall, hfault⟩ := hp.undergo_none hg hnext
      exact ⟨hcall, .inl hfault⟩
    | some q =>
      rw [hnext] at hend
      obtain ⟨hcall, hfault⟩ := ih (hp.undergo hg hnext) hend
      exact ⟨hcall, .inr hfault⟩

/-- How a process answers loads and faults after some events, where `action` was in place before
the first. -/
structure Answers (action : SignalAction) (events : List (FaultEvent g)) (p : Host) : Prop where
  /-- A load gives the word at its address and zero where there is none. Until the handler is in
  place it gives zero whatever the memory holds. Nobody is told of its fault. -/
  loaded : ∀ memory file address,
    p.signals.load g memory file address =
      some (if FaultEvent.protects events then (memory address).getD 0 else 0, p.signals)
  /-- A fault at the load changes its program counter and its result, and nothing else. -/
  resumed : FaultEvent.protects events = true → ∀ file : RegisterFile,
    file Architecture.amd64.pc = g.entry →
    p.signals.deliver g file = some ((file.set "rip" (g.entry + 3)).set "rax" 0, p.signals)
  /-- Any other fault changes no register and calls the foreign handler once. -/
  passedOn : ∀ call, action.call? = some call → ∀ file : RegisterFile,
    file Architecture.amd64.pc ≠ g.entry →
    p.signals.deliver g file =
      some (file, { p.signals with calls := call :: p.signals.calls })
  /-- Without a foreign handler any other fault ends the process; -/
  ended : action.call? = none → ∀ file : RegisterFile,
    file Architecture.amd64.pc ≠ g.entry → p.signals.deliver g file = none
  /-- the tracer's handler restores the default action for that and raises the fault again. -/
  raised : action.call? = none → FaultEvent.protects events = true → ∀ file : RegisterFile,
    file Architecture.amd64.pc ≠ g.entry →
    p.signals.handle g segmentationFault true (some file) =
      (some file, { p.signals with action := .default, pending := true })
  /-- The action that is kept is the one from before, and never the tracer's own. -/
  kept : p.signals.saved = if FaultEvent.protects events then some action else none
  foreign : p.signals.saved ≠ some .guard
  /-- In all there was one call for each fault of other code. -/
  calls : p.signals.calls =
    action.call?.elim [] (List.replicate (events.countP FaultEvent.isFault))

/-- Whatever a process has lived through, guarded loads survive from the first successful attempt
on, and all other faults go to the action from before. It has ended only if other code has faulted
without a foreign handler. -/
theorem faults_answered (hg : g.LaidOut) (haction : action ≠ .guard)
    (events : List (FaultEvent g)) :
    (∀ p, (new action).live events = some p → p.Answers action events) ∧
      ((new action).live events = none →
        action.call? = none ∧ events.any FaultEvent.isFault = true) := by
  have hnew := settled_new haction
  refine ⟨fun p hrun => ?_, hnew.live_none hg⟩
  have hp := hnew.live hg hrun
  rw [Option.none_or, Nat.zero_add] at hp
  have hinstalled : p.signals.installed = FaultEvent.protects events := hp.installed
  refine ⟨fun memory file address => ?_, fun hprotects file hentry => ?_,
    fun call hcall file helsewhere => ?_, fun hnone file helsewhere => ?_,
    fun hnone hprotects file helsewhere => ?_, ?_, ?_, hp.calls⟩
  · rw [← hinstalled]
    exact hp.signals.load_eq hg memory file address
  · exact hp.signals.deliver_entry (hinstalled.trans hprotects) hg hentry
  · rw [hp.signals.deliver_elsewhere hg helsewhere, hcall]
    rfl
  · rw [hp.signals.deliver_elsewhere hg helsewhere, hnone]
    rfl
  · rw [hp.signals.handle_elsewhere (hinstalled.trans hprotects) hg helsewhere, hnone]
  · rw [← hinstalled]
    exact hp.signals.saved_eq
  · rw [hp.signals.saved_eq]
    split
    · simpa using haction
    · exact nofun

/-- A guarded load with its code at a page of its own, and the next function behind it. -/
def pageLoad : GuardedLoad where
  entry := 0x1000
  code a := ([0x48, 0x8b, 0x07, 0xc3] ++ List.replicate 12 0xcc ++ [0x48, 0x8b] : Bytes).getD
    (a - 0x1000).toNat 0

theorem pageLoad_laidOut : pageLoad.LaidOut where
  load := by decide
  ret := by decide
  padding := by decide
  next := by decide

/-- A load before the handler is in place, one after, a fault of other code, and another attempt. -/
def interleaved : List (FaultEvent pageLoad) :=
  [.load (fun _ => some 7) (fun _ => 0) 8, .install none, .load (fun _ => none) (fun _ => 0) 8,
    .fault (fun _ => 0) (by decide), .install (some 1)]

theorem faults_answered_interleaved :
    ∃ p, (new (.foreign 0x7000 true)).live interleaved = some p ∧
      p.signals.calls = [⟨0x7000, 11, some (true, true)⟩] ∧
      p.Answers (.foreign 0x7000 true) interleaved :=
  ⟨_, rfl, rfl, (faults_answered pageLoad_laidOut (by decide) interleaved).1 _ rfl⟩

end Host

end Unwind
