/-!
# Marshals

A marshal is the endpoint that a caller uses for one exchange with a daemon. It is either open and
usable or not. What it does, it does to the world outside; everything here takes that world and
gives it back changed.
-/

namespace SessionPool

/-- What every marshal can do, in a world `ω`. -/
class Marshal (μ ω : Type) where
  /-- Connects to a host and port, and tells whether the marshal is usable now. -/
  dial (m : μ) (host : String) (port : UInt16) (w : ω) : Bool × μ × ω
  /-- Clears what an exchange has left behind and keeps the connection. -/
  reset (m : μ) (w : ω) : μ × ω
  /-- Gives the connection up. -/
  close (m : μ) (w : ω) : μ × ω

/-- Where new marshals come from. They are not open yet. -/
class Source (φ : Type) (μ : outParam Type) (ω : Type) where
  create (f : φ) (w : ω) : μ × ω

/-- Closes marshals one after the other. -/
def closeEach {μ ω : Type} [Marshal μ ω] (ms : List μ) (w : ω) : ω :=
  ms.foldl (fun w m => (Marshal.close m w).2) w

@[simp] theorem closeEach_nil {μ ω : Type} [Marshal μ ω] (w : ω) :
    closeEach ([] : List μ) w = w := rfl

@[simp] theorem closeEach_cons {μ ω : Type} [Marshal μ ω] (m : μ) (ms : List μ) (w : ω) :
    closeEach (m :: ms) w = closeEach ms (Marshal.close m w).2 := rfl

end SessionPool
