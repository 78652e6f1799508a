import Mathlib
import Montage.CommandLine.Program
import Montage.Proofs.Timeline.Skipping

/-!
The command line and the library read the same request.  The command line takes the value of the
whole text first, so it also asks of the parts that the library passes over that they are sound, and
of the text that it does not nest too deep.
-/

namespace Montage.CommandLine

open Json (Document Value maxDepth)

theorem withMode_none (v : Value) : withMode none v = v := by
  cases v <;> rfl

theorem requestOf_eq_ok_iff {text : String} {r : Request} : requestOf text none = .ok r ↔
    ∃ v, (Document.ofString text).value? = some v ∧ v.read Request.reader = .ok r := by
  unfold requestOf
  cases (Document.ofString text).value? with
  | none => simp
  | some v =>
    dsimp only
    rw [withMode_none]
    cases hread : v.read Request.reader <;> simp [hread]

theorem ofJson_eq_ok_iff {text : String} {r : Request} : Request.ofJson text = .ok r ↔
    Request.reader .text (Document.ofString text).tree = .ok r ∧
      (Document.ofString text).trailing = false := by
  unfold Request.ofJson Document.read
  cases Request.reader .text (Document.ofString text).tree with
  | error e => simp [bind, Except.bind]
  | ok r' => cases (Document.ofString text).trailing <;> simp [bind, Except.bind, pure, Except.pure]

/-- A request with records as objects and as arrays, and values under keys that it does not know. -/
def annotatedRequest : String :=
  "\x7b\"note\":[1e3,\x7b\"by\":null\x7d],\"audio_tracks\":[[\"a.mp3\",1.5]," ++
    "\x7b\"gain\":\"low\",\"file\":\"b.mp3\"\x7d],\"output_mode\":\x7b\"preview\":null\x7d\x7d"

/-- A request with 127 arrays within each other under an unknown key. -/
def deepRequest : String :=
  "\x7b\"output_mode\":\"preview\",\"note\":" ++ String.ofList (List.replicate 127 '[') ++
    String.ofList (List.replicate 127 ']') ++ "\x7d"

end Montage.CommandLine
