import LineBasic.Devices.Event

/-!
# A watch on the steps

Devices with someone beside them who counts the statements, writes down their positions, and asks
the engine to stop once the count has reached a limit.
-/

namespace LineBasic

/-- A world in which the statements are counted. -/
structure Watched (σ : Type) where
  world : σ
  /-- The statements started so far. -/
  count : Nat
  /-- Their positions, the newest one first. -/
  trace : List Position

/-- The answer of a device, seen from the watched world around its own. -/
def Watched.lift {σ α : Type} (f : σ → Response σ α) (w : Watched σ) : Response (Watched σ) α :=
  let (r, world) := f w.world
  (r, { w with world := world })

/-- The devices with a watch that asks for a stop at every statement from the given count on. -/
def Devices.watched {σ : Type} (limit : Nat) (d : Devices σ) : Devices (Watched σ) where
  write s := Watched.lift (d.write s)
  hold := Watched.lift d.hold
  readLine status := Watched.lift (d.readLine status)
  wait seconds := Watched.lift (d.wait seconds)
  poke a bs := Watched.lift (d.poke a bs)
  call a := Watched.lift (d.call a)
  note e w := { w with world := d.note e w.world }
  watch pos w :=
    let (stop, world) := d.watch pos w.world
    (stop || decide (limit ≤ w.count + 1), ⟨world, w.count + 1, pos :: w.trace⟩)

end LineBasic
