import Mathlib
import Montage.Proofs.Json.Records
import Montage.Timeline.Document

/-!
The fields of each record have names of their own and set parts of their own, so a record may be
read from its members in any order.
-/

namespace Montage

open Json (Field)
open Json.Record (Orderly)

theorem Size.orderly_record : Orderly Size.record where
  names := by decide
  sets := by simp [Size.record, Field.of]
  apart := by simp [Size.record, Field.of]
  unset := by simp [Size.record, Field.of]

theorem VideoTrack.orderly_record : Orderly VideoTrack.record where
  names := by decide
  sets := by simp [VideoTrack.record, Field.of]
  apart := by simp [VideoTrack.record, Field.of]
  unset := by simp [VideoTrack.record, Field.of]

theorem EchoSettings.orderly_record : Orderly EchoSettings.record where
  names := by decide
  sets := by simp [EchoSettings.record, Field.of]
  apart := by simp [EchoSettings.record, Field.of]
  unset := by simp [EchoSettings.record, Field.of]

theorem ReverbSettings.orderly_record : Orderly ReverbSettings.record where
  names := by decide
  sets := by simp [ReverbSettings.record, Field.of]
  apart := by simp [ReverbSettings.record, Field.of]
  unset := by simp [ReverbSettings.record, Field.of]

theorem AudioTrack.orderly_record : Orderly AudioTrack.record where
  names := by decide
  sets := by simp [AudioTrack.record, Field.of]
  apart := by simp [AudioTrack.record, Field.of]
  unset := by simp [AudioTrack.record, Field.of]

theorem ColorBalance.orderly_record : Orderly ColorBalance.record where
  names := by decide
  sets := by simp [ColorBalance.record, Field.of]
  apart := by simp [ColorBalance.record, Field.of]
  unset := by simp [ColorBalance.record, Field.of]

theorem VideoEffects.orderly_record : Orderly VideoEffects.record where
  names := by decide
  sets := by simp [VideoEffects.record, Field.of]
  apart := by simp [VideoEffects.record, Field.of]
  unset := by simp [VideoEffects.record, Field.of]

theorem Request.orderly_record : Orderly Request.record where
  names := by decide
  sets := by simp [Request.record, Field.of]
  apart := by simp [Request.record, Field.of]
  unset := by simp [Request.record, Field.of]

end Montage
