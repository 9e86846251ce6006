import Tm4cPilot.Gcs.Upload

/-!
# Uploads on several channels

Two ground stations that upload at the same time write into the same slots. An upload comes out
right when no other channel stores an item in its part.
-/

namespace Tm4cPilot.Gcs

open Mission (Slot numCommandsMax)
open StorageManager (Layout)

variable {ι : Type} [DecidableEq ι] {layout : Layout}

/-- The upload of the item was announced. -/
def WasAnnounced (layout : Layout) (s : Watched ι) : Event ι → Prop
  | .message c _ (.missionItem item _ _) =>
    Accepts layout (s.vehicle.channels c) s.vehicle.mission item →
      ∀ u, s.uploads c = some u → 1 ≤ u.count
  | _ => True

/-- The item spares the other uploads. -/
def Harmless (layout : Layout) (s : Watched ι) (e : Event ι) : Prop :=
  WasAnnounced layout s e ∧ SparesOthers layout s e

theorem Harmless.count {s : Watched ι} {e : Event ι} (h : Harmless layout s e) {c : ι} {u : Upload}
    (upload : (s.step layout e).uploads c = some u)
    (finishes : s.vehicle.finishes layout c e = true) : 1 ≤ u.count := by
  obtain ⟨item, took⟩ := took_of_finishes upload finishes
  obtain ⟨sender, guided, space, rfl⟩ := took.event
  obtain ⟨u₀, upload₀, rfl⟩ := Option.map_eq_some_iff.1 took.upload
  exact h.1 took.accepts u₀ upload₀

/-- In a run of harmless steps, the mission has the items of every upload when it is finished. -/
theorem upload_among_others (layout : Layout) (v : Vehicle ι) {events : List (Event ι)} {e : Event ι}
    (harmless : Run.Along (Watched.step layout) (Harmless layout) (.start v) (events ++ [e])) (c : ι)
    {u : Upload}
    (upload : ((Run.run (Watched.step layout) (.start v) events).step layout e).uploads c = some u)
    (finishes :
      (Run.run (Watched.step layout) (.start v) events).vehicle.finishes layout c e = true) :
    Consists layout ((Run.run (Watched.step layout) (.start v) events).step layout e).vehicle.mission
      u := by
  obtain ⟨before, now, -⟩ := Run.along_append.1 harmless
  have sound : Sound layout (Run.run (Watched.step layout) (.start v) events) :=
    before.invariant (fun s e harmless sound => sound.step harmless.2) (sound_start layout v)
  exact sound.consists upload (now.count upload finishes) finishes

/-- Both channels announce two commands before the first one of them sends its items. -/
theorem announcedTwice_consists :
    let layout := StorageManager.layoutCopter .four
    let s := Run.run (Watched.step layout) (.start idle)
      [announce false 2, announce true 2, send false 0 0]
    ∃ u, (s.step layout (send false 1 7)).uploads false = some u ∧
      Consists layout (s.step layout (send false 1 7)).vehicle.mission u := by
  refine ⟨_, rfl, upload_among_others (StorageManager.layoutCopter .four) idle ?_ false rfl
    (by decide +kernel)⟩
  refine ⟨⟨trivial, trivial⟩, ⟨trivial, trivial⟩,
    ⟨fun _ u upload => ?_, fun _ d u other upload _ _ => ?_⟩,
    ⟨fun _ u upload => ?_, fun _ d u other upload _ _ => ?_⟩, trivial⟩
  · obtain rfl := Option.some.inj upload
    decide +kernel
  · obtain rfl : d = true := Bool.eq_true_of_not_eq_false other
    obtain rfl := Option.some.inj upload
    exact ⟨by decide +kernel, by decide +kernel⟩
  · obtain rfl := Option.some.inj upload
    decide +kernel
  · obtain rfl : d = true := Bool.eq_true_of_not_eq_false other
    obtain rfl := Option.some.inj upload
    exact ⟨by decide +kernel, by decide +kernel⟩

/-- The upload of the first channel is finished with a command of the second. -/
theorem mixed_uploads :
    let layout := StorageManager.layoutCopter .four
    let s := Run.run (Watched.step layout) (.start idle)
      [announce false 3, send false 0 0, send false 1 11, announce true 3, send true 0 0,
        send true 1 21]
    let s' := s.step layout (send false 2 12)
    s.vehicle.finishes layout false (send false 2 12) = true ∧
      (s'.uploads false).map (fun u => (u.count, u.items 1)) = some (3, some (waypoint 11)) ∧
      Mission.readCmdFromStorage layout s'.vehicle.mission.storage (fun _ => 0)
        s'.vehicle.mission.numCommands .zero 1 default = (true, ⟨waypoint 21, 1⟩) := by
  decide +kernel

end Tm4cPilot.Gcs
