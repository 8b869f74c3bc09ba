import CommandScript.Fault

/-!
# Diagnostics

The errors reported while one input is worked on. Taking the errors leaves a note of what
kinds there were.

* `Diagnostics.report`, `reportAll`: add errors in order.
* `Diagnostics.take`: the errors reported so far, which are then forgotten.
-/

namespace CommandScript

structure Diagnostics where
  reported : Array (Located Fault)
  /-- Whether anything but a runtime fault was reported. -/
  hadError : Bool
  hadRuntimeError : Bool

namespace Diagnostics

def empty : Diagnostics := ⟨#[], false, false⟩

def report (diagnostics : Diagnostics) (error : Located Fault) : Diagnostics where
  reported := diagnostics.reported.push error
  hadError := diagnostics.hadError || !error.cause.isRuntime
  hadRuntimeError := diagnostics.hadRuntimeError || error.cause.isRuntime

def reportAll (diagnostics : Diagnostics) (errors : List (Located Fault)) : Diagnostics :=
  errors.foldl report diagnostics

def take (diagnostics : Diagnostics) : List (Located Fault) × Diagnostics :=
  (diagnostics.reported.toList, { diagnostics with reported := #[] })

end Diagnostics

end CommandScript
