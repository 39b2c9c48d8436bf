import Unwind.FrameHeader
import Unwind.Log
import Unwind.RuleTable

/-!
# Compiling the rule table of an image

The search table in an image's header section leads to the frame records of all its functions. Their
rules are collected into one table. A function that is broken is left out and reported; a broken
search table leaves no table at all.
-/

namespace Unwind

namespace RuleTable

/-- The result of compiling: what was reported, and the table or the error that prevented it. -/
structure Compilation where
  log : List LogLine
  table : Except CfiError (Array Rule)

def skipped (record : UInt64) (e : CfiError) : LogLine :=
  ⟨.debug, "skipping fde at " ++ hex record.toNat ++ ": " ++ e.message⟩

/-- Adds the function whose record is at an address; if it is broken, also reports it. -/
def addRecord (frames : Section) (b : Builder) (record : UInt64) : List LogLine × Builder :=
  match Fde.decode frames record with
  | .error e => ([skipped record e], b)
  | .ok (fde, cie) =>
    match b.add fde cie with
    | (b, .ok ()) => ([], b)
    | (b, .error e) => ([skipped record e], b)

/-- Adds the functions of the search table in order, up to the first pair that could not be read. -/
def addEntries (frames : Section) :
    List (Except CfiError FrameHeader.Entry) → Builder → List LogLine × Except CfiError Builder
  | [], b => ([], .ok b)
  | .error e :: _, _ => ([], .error e)
  | .ok entry :: rest, b =>
    let (lines, b) := addRecord frames b entry.record
    let (more, result) := addEntries frames rest b
    (lines ++ more, result)

/-- Compiles the table of the image with the given base, from its header section and the section
that holds its frame records. -/
def compile (header frames : Section) (imageBase : UInt64) : Compilation :=
  match FrameHeader.decode header with
  | .error e => ⟨[], .error e⟩
  | .ok h =>
    let (log, result) := addEntries frames (h.entries header) (.new imageBase)
    ⟨log, result.map Builder.finish⟩

end RuleTable

end Unwind
