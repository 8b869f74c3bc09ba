import CommandScript.Command.Registry

/-!
# Effects

What a program does to the world: it writes bytes to its output, and its commands are
delivered to modules. Effects are kept in the order in which they happen.

The output goes to a sink that may take only so many bytes in total. A text that does not
fit is taken up to the limit, and the write fails. A sink may also fail when it is flushed.

* `Sink.write`: what a sink takes of a text, and whether it took all of it.
* `Effect.output`: the bytes written by a list of effects.
-/

namespace CommandScript

structure Sink where
  /-- The number of bytes that still fit, if there is a limit. -/
  room : Option Nat
  flushFails : Bool
  deriving DecidableEq

/-- A command as a registered module received it. -/
structure Delivery where
  receiver : String
  command : String
  map : CommandMap
  reception : Reception

inductive Effect where
  | wrote (bytes : ByteArray)
  | delivered (delivery : Delivery)

structure Written where
  bytes : ByteArray
  sink : Sink
  complete : Bool

namespace Sink

def unlimited : Sink := ⟨none, false⟩

def write (sink : Sink) (text : String) : Written :=
  let bytes := text.toUTF8
  match sink.room with
  | none => ⟨bytes, sink, true⟩
  | some room =>
    if bytes.size ≤ room then ⟨bytes, { sink with room := some (room - bytes.size) }, true⟩
    else ⟨bytes.extract 0 room, { sink with room := some 0 }, false⟩

/-- The details of a write that did not fit. -/
def fullDetails : String := "sink full"

/-- The details of a flush that failed. -/
def flushDetails : String := "flush failed"

end Sink

namespace Effect

def output (effects : List Effect) : ByteArray :=
  effects.foldl (fun bytes effect =>
    match effect with
    | .wrote more => bytes ++ more
    | .delivered _ => bytes) ByteArray.empty

def deliveries (effects : List Effect) : List Delivery :=
  effects.filterMap fun effect =>
    match effect with
    | .wrote _ => none
    | .delivered delivery => some delivery

end Effect

end CommandScript
