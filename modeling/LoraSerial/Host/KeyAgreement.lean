import LoraSerial.Device.Session
import LoraSerial.Host.Pairing
import LoraSerial.LinkLayer.Curve25519

/-!
Owns the two key agreements of the firmware, at pairing and at a session's start, with the
X25519 that the boards run: on its curve any two key pairs agree, so neither agreement rests
on the keys that were drawn.
-/

namespace LoraSerial.Host

open LinkLayer X25519

/-- Two boards that hold each other's public keys compute one secret. -/
theorem secret_comm (a b : Bytes) :
    scalarmult a (scalarmultBase b) = scalarmult b (scalarmultBase a) :=
  scalarmult_comm a b _

namespace Pairing.World

/-- Over every run of two boards from before any pairing, whatever keys they draw: if every
key taken after the other board's most recent run took one is that run's, and that run took
this run's, then whenever the most recent runs of both returned true, both hold and have
stored one key. -/
theorem paired_run (world : World) (start : world.Unpaired) (actions : List (Side × Action))
    (meets : world.Meets actions) : (world.run actions).Agrees := by
  have sound := (Sound.unpaired start).run meets fun _ _ member => member
  exact sound.agrees fun a b _ _ => secret_comm a b

theorem paired_run_clean : (unpaired.run cleanPairing).Agrees := by
  refine paired_run unpaired ?_ cleanPairing (by decide +kernel)
  intro side
  exact ⟨rfl, rfl, rfl, rfl, by simp [unpaired]⟩

end Pairing.World

end LoraSerial.Host

namespace LoraSerial.Device.SessionPair

open LinkLayer X25519 Library.Run

/-- Over every run of two boards with one static key, whatever ephemerals they draw and
whatever is lost, retried, fallen back from or reset: a data frame of a settled action is
sealed under the key of the responder that takes it. -/
theorem sealed_run (staticKey : Key) (actions : List SessionAction) :
    Along (step staticKey) (fun pair action => pair.Settled action → pair.Matches action)
      (start staticKey) actions := by
  have start := sound_start (fun _ => True) (fun _ => True) staticKey
  refine Along.imp (fun pair action sound _ settled => ?_) (fun pair action sound _ => ?_) start
    (along_of_mem fun _ member => member)
  · exact sound.matches (fun a b _ _ => Host.secret_comm a b) settled
  · exact sound.step action (fun _ _ _ _ _ => trivial) (fun _ _ _ => trivial)

end LoraSerial.Device.SessionPair
