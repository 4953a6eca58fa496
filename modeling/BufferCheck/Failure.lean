/-! Failures as chains of texts: what failed, then why, then why that. -/
namespace BufferCheck

/-- A failure with its own text and the texts of its causes, outermost first. -/
class Failure (ε : Type) where
  message : ε → String
  causes : ε → List String

/-- The text of a failure, and those of its causes. -/
def Failure.chain {ε : Type} [Failure ε] (e : ε) : List String := message e :: causes e

/-- The text that stands for a fault in a JSON text. Where it is does not matter. -/
def malformedJson : String := "<json error>"

end BufferCheck
