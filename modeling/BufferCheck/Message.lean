/-!
Messages of diagnostics: plain text, or a tree of explanations. A tree is shown as one text, each
node below the root on a line of its own, indented by its depth.
-/
namespace BufferCheck

/-- A text with the texts that explain it. -/
inductive Explanation where
  | node (text : String) (next : List Explanation)

instance : Inhabited Explanation := ⟨.node "" []⟩

/-- The message of a diagnostic. -/
inductive Message where
  | text (s : String)
  | chain (e : Explanation)

/-- Two spaces for each level. -/
def indentation (depth : Nat) : String := .ofList (List.replicate (2 * depth) ' ')

mutual

/-- The texts of a tree in reading order, each with its depth. -/
def Explanation.outline (depth : Nat) : Explanation → List (Nat × String)
  | .node text next => (depth, text) :: outlineAll (depth + 1) next

/-- The texts of several trees, one after the other. -/
def outlineAll (depth : Nat) : List Explanation → List (Nat × String)
  | [] => []
  | e :: rest => e.outline depth ++ outlineAll depth rest

end

mutual

/-- The text of a node and those below it; a node below the root starts on a new line. -/
def Explanation.flatten (newLine : String) (depth : Nat) : Explanation → String
  | .node text next =>
    (if depth = 0 then "" else newLine ++ indentation depth) ++ text
      ++ flattenAll newLine (depth + 1) next

/-- The texts of several nodes, one after the other. -/
def flattenAll (newLine : String) (depth : Nat) : List Explanation → String
  | [] => ""
  | e :: rest => e.flatten newLine depth ++ flattenAll newLine depth rest

end

namespace Message

/-- The message as one text. -/
def flatten (newLine : String) : Message → String
  | text s => s
  | chain e => e.flatten newLine 0

/-- The message on lines of their own. -/
def shown (m : Message) : String := m.flatten "\n"

/-- The message up to its first line feed. -/
def firstLine (m : Message) : String := .ofList (m.shown.toList.takeWhile (· ≠ '\n'))

end Message
end BufferCheck
