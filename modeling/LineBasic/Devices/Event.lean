import LineBasic.Engine.Exec

/-!
# Events

What has happened at the devices of an engine, written down in the order in which it happened. A
world that keeps events keeps the newest one first, so that adding one is cheap; `inOrder` turns
them round.
-/

namespace LineBasic

/-- Something that happened at a device. -/
inductive Event where
  /-- A text was written to the display. -/
  | write (text : String)
  /-- The display was held. -/
  | hold
  /-- A line was asked for, while the engine showed the given status. -/
  | read (status : Status)
  /-- The engine waited for some seconds, or for no fixed time. -/
  | wait (seconds : Option Float)
  /-- Bytes were put at an address. -/
  | poke (address : Nat) (bytes : List Nat)
  /-- Machine code was run. -/
  | call (address : Nat)
  /-- Time passed. -/
  | sleep (seconds : Float)
  /-- A note was made in the log. -/
  | note (entry : LogEntry)
deriving DecidableEq

/-- Events with the newest one first. -/
abbrev Events := List Event

/-- Events with the oldest one first. -/
def Events.inOrder (es : Events) : List Event :=
  es.reverse

end LineBasic
