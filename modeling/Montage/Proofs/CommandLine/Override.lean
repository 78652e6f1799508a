import Mathlib
import Montage.CommandLine.Program
import Montage.Proofs.Command.Modes
import Montage.Proofs.Json.Values
import Montage.Proofs.Timeline.Fields

/-!
The mode that the command line gives.  It replaces the mode of a request that is written as an
object; a request that is written as an array keeps its own.
-/

namespace Montage

namespace Request

open Json (Members Tree Value treePairs)
open Json.Record (collect?)

variable {mode : OutputMode} {r : Request} {ms : List (String × Value)}

theorem named?_name (mode : OutputMode) : OutputMode.named? mode.name = some mode := by
  cases mode <;> decide

theorem read_name (mode : OutputMode) :
    OutputMode.reader .value (Value.string mode.name).toTree = .ok mode := by
  rw [Value.toTree]
  change Json.Reader.choice.pick _ _ mode.name = _
  rw [Json.Reader.choice.pick, named?_name]

/-- The members of a request, with that of its mode read last. -/
theorem exists_draft {v : Value} {rest : List (String × Value)}
    (hperm : ms.Perm (rest ++ [("output_mode", v)]))
    (h : (Value.object ms).read reader = .ok r) :
    ∃ d m, collect? record.fields .value (some record.empty) (treePairs rest) = some d ∧
      d.mode = none ∧ OutputMode.reader .value v.toTree = .ok m ∧
      record.complete { d with mode := some m } = .ok r := by
  obtain ⟨f, hf, hkey, hpart⟩ : ∃ f ∈ record.fields, "output_mode" ∈ f.names ∧
      f.Part (·.mode) (fun d m => { d with mode := some m }) OutputMode.reader :=
    ⟨_, List.mem_cons_self, List.mem_cons_self, fun _ => rfl, fun _ _ _ => rfl⟩
  rw [Value.read, Value.toTree, Json.membersToTree_eq, reader,
    Json.Record.reader_object_eq_ok_iff] at h
  obtain ⟨d', hd', hcomplete⟩ := h
  have hdistinct := orderly_record.toDistinct
  rw [Json.Record.collect?_perm hdistinct _ (Json.perm_treePairs hperm), Json.treePairs_concat,
    Json.Record.collect?_append] at hd'
  obtain ⟨d, hd, htake⟩ := Option.bind_eq_some_iff.mp hd'
  obtain ⟨hmode, m, hm, rfl⟩ :=
    (Json.Record.take?_eq_some_iff hdistinct hf hpart hkey).mp htake
  exact ⟨d, m, hd, hmode, hm, hcomplete⟩

theorem complete_withMode {d : Draft} {m m' : OutputMode}
    (h : record.complete { d with mode := some m } = .ok r) :
    record.complete { d with mode := some m' } = .ok (r.withMode m') := by
  obtain rfl := Except.ok.inj h
  rfl

theorem complete_of_mode_eq_none {d : Draft} (h : d.mode = none) :
    record.complete d = .error "output_mode" := by
  obtain ⟨mode⟩ := d
  obtain rfl : mode = none := h
  rfl

theorem read_insertMode (h : (Value.object
    (Json.insertMember "output_mode" (.string mode.name) ms)).read reader = .ok r) :
    r.mode = mode ∧
      ∀ r', (Value.object ms).read reader = .ok r' → r = r'.withMode mode := by
  obtain ⟨rest, hinsert, hms⟩ :=
    Json.exists_perm_insertMember "output_mode" (.string mode.name) ms
  obtain ⟨d, m, hd, hmode, hm, hcomplete⟩ := exists_draft hinsert h
  obtain rfl := Except.ok.inj ((read_name mode).symm.trans hm)
  constructor
  · exact congrArg Request.mode (Except.ok.inj (hcomplete.symm.trans (complete_withMode hcomplete)))
  · intro r' h'
    rcases hms with hms | ⟨v, hms⟩
    · -- without the member there is no mode, and a request needs one
      rw [Value.read, Value.toTree, Json.membersToTree_eq, reader,
        Json.Record.reader_object_eq_ok_iff] at h'
      obtain ⟨d', hd', hcomplete'⟩ := h'
      rw [Json.Record.collect?_perm orderly_record.toDistinct _ (Json.perm_treePairs hms)] at hd'
      obtain rfl := Option.some.inj (hd.symm.trans hd')
      rw [complete_of_mode_eq_none hmode] at hcomplete'
      contradiction
    · obtain ⟨d', m', hd', -, -, hcomplete'⟩ := exists_draft hms h'
      obtain rfl := Option.some.inj (hd.symm.trans hd')
      exact Except.ok.inj (hcomplete.symm.trans (complete_withMode hcomplete'))

end Request

namespace CommandLine

open Json (Value)

variable {text : String} {mode : OutputMode} {r : Request}

/-- A request that leaves its mode open. -/
def openRequest : String := "\x7b\"output_file\":\"a.mp4\"\x7d"

end CommandLine

end Montage
