/-! Results with a log. What was noted before a failure is kept. -/
namespace BufferCheck

/-- The notes of a computation, in order, and how it ended. -/
structure Logged (ω ε α : Type) where
  log : List ω
  outcome : Except ε α

namespace Logged
variable {ω ω' ε ε' α β : Type}

/-- Fail without a note. -/
def fail (e : ε) : Logged ω ε α := ⟨[], .error e⟩

/-- Note one thing. -/
def note (w : ω) : Logged ω ε Unit := ⟨[w], .ok ()⟩

/-- Go on with a result that needs no log. -/
def ofExcept (r : Except ε α) : Logged ω ε α := ⟨[], r⟩

/-- Go on with the value; a failure ends the computation. -/
def andThen (r : Logged ω ε α) (f : α → Logged ω ε β) : Logged ω ε β :=
  match r.outcome with
  | .error e => ⟨r.log, .error e⟩
  | .ok a =>
    let next := f a
    ⟨r.log ++ next.log, next.outcome⟩

instance : Monad (Logged ω ε) where
  pure a := ⟨[], .ok a⟩
  bind := andThen

/-- The same result with other notes and another failure. -/
def mapBoth (f : ω → ω') (g : ε → ε') (r : Logged ω ε α) : Logged ω' ε' α :=
  ⟨r.log.map f, r.outcome.mapError g⟩

end Logged
end BufferCheck
