import Mathlib
import Montage.Proofs.Json.Agreement
import Montage.Proofs.Timeline.Fields

/-!
What a request passes over in its text: the values under unknown keys, in the request itself and in
the records within it.  Apart from these a request reads the same from its text and from the value
that the text holds.
-/

namespace Montage

open Json (Reader Record Tree)
open Json.Reader (Steady)

/-- What is passed over under the fields that may pass something over. -/
def Json.Tree.skippedUnder (known : List (String × (Tree → List Tree))) (name : String) :
    Tree → List Tree :=
  (known.lookup name).getD Tree.skippedNone

def Size.skipped : Tree → List Tree := Size.record.skipped (Tree.skippedUnder [])

def VideoTrack.skipped : Tree → List Tree :=
  VideoTrack.record.skipped (Tree.skippedUnder [("resolutions", Tree.skippedItems Size.skipped)])

def EchoSettings.skipped : Tree → List Tree := EchoSettings.record.skipped (Tree.skippedUnder [])

def ReverbSettings.skipped : Tree → List Tree :=
  ReverbSettings.record.skipped (Tree.skippedUnder [])

def AudioTrack.skipped : Tree → List Tree :=
  AudioTrack.record.skipped
    (Tree.skippedUnder [("echo", EchoSettings.skipped), ("reverb", ReverbSettings.skipped)])

def ColorBalance.skipped : Tree → List Tree := ColorBalance.record.skipped (Tree.skippedUnder [])

def VideoEffects.skipped : Tree → List Tree :=
  VideoEffects.record.skipped (Tree.skippedUnder [("balance", ColorBalance.skipped)])

def Request.skipped : Tree → List Tree :=
  Request.record.skipped (Tree.skippedUnder
    [("canvas", Size.skipped), ("video_effects", Tree.skippedItems VideoEffects.skipped),
     ("video_tracks", Tree.skippedItems VideoTrack.skipped),
     ("audio_tracks", Tree.skippedItems AudioTrack.skipped)])

theorem Size.steady : Size.record.reader.Steady Size.skipped := by
  apply Record.steady Size.orderly_record
  simp only [Size.record, List.forall_mem_cons]
  exact ⟨Steady.word.of, Steady.word.of, List.forall_mem_nil _⟩

theorem Interval.steady : Interval.reader.Steady Tree.skippedNone :=
  (Steady.float.pair Steady.float).map _

theorem VideoTrack.steady : VideoTrack.record.reader.Steady VideoTrack.skipped := by
  apply Record.steady VideoTrack.orderly_record
  simp only [VideoTrack.record, List.forall_mem_cons]
  exact ⟨Steady.strings.of, (Steady.stringAs _).field ⟨fun _ => rfl, fun _ _ _ => rfl⟩,
    Interval.steady.of, Size.steady.list.of, List.forall_mem_nil _⟩

theorem EchoSettings.steady : EchoSettings.record.reader.Steady EchoSettings.skipped := by
  apply Record.steady EchoSettings.orderly_record
  simp only [EchoSettings.record, List.forall_mem_cons]
  exact ⟨Steady.bool.of, Steady.float.of, Steady.float.of, Steady.float.of, Steady.float.of,
    List.forall_mem_nil _⟩

theorem ReverbSettings.steady : ReverbSettings.record.reader.Steady ReverbSettings.skipped := by
  apply Record.steady ReverbSettings.orderly_record
  simp only [ReverbSettings.record, List.forall_mem_cons]
  exact ⟨Steady.bool.of, Steady.float.of, Steady.float.of, List.forall_mem_nil _⟩

theorem AudioTrack.steady : AudioTrack.record.reader.Steady AudioTrack.skipped := by
  apply Record.steady AudioTrack.orderly_record
  simp only [AudioTrack.record, List.forall_mem_cons]
  exact ⟨(Steady.stringAs _).of, Steady.float.of, Steady.float.of, Steady.bool.of, Steady.bool.of,
    EchoSettings.steady.of, ReverbSettings.steady.of, List.forall_mem_nil _⟩

theorem ColorBalance.steady : ColorBalance.record.reader.Steady ColorBalance.skipped := by
  apply Record.steady ColorBalance.orderly_record
  simp only [ColorBalance.record, List.forall_mem_cons]
  exact ⟨Steady.float.of, Steady.float.of, Steady.float.of, List.forall_mem_nil _⟩

theorem VideoEffects.steady : VideoEffects.record.reader.Steady VideoEffects.skipped := by
  apply Record.steady VideoEffects.orderly_record
  simp only [VideoEffects.record, List.forall_mem_cons]
  exact ⟨(Steady.stringAs _).of, (Steady.float.optional rfl).of, (Steady.float.optional rfl).of,
    (ColorBalance.steady.optional rfl).of, (Steady.float.optional rfl).of, List.forall_mem_nil _⟩

theorem OutputMode.steady : OutputMode.reader.Steady Tree.skippedNone := Steady.choice

theorem AspectRatio.steady : AspectRatio.reader.Steady Tree.skippedNone :=
  (Steady.stringAs _).andThen _

/-- A request is read the same from a text and from the value of the text. -/
theorem Request.steady : Request.reader.Steady Request.skipped := by
  apply Record.steady Request.orderly_record
  simp only [Request.record, List.forall_mem_cons]
  exact ⟨OutputMode.steady.of, Size.steady.of, Steady.word.of, AspectRatio.steady.of,
    (Steady.stringAs _).of, (Steady.stringAs _).of, (Steady.stringAs _).of, Steady.word.of,
    (Steady.stringAs _).of, (Steady.stringAs _).of, VideoEffects.steady.list.of,
    VideoTrack.steady.list.of, AudioTrack.steady.list.of, List.forall_mem_nil _⟩

end Montage
