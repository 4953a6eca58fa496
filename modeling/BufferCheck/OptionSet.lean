import BufferCheck.Json.Value
import BufferCheck.ScriptTarget

/-! Compiler options by name. -/
namespace BufferCheck

/-- Options and their values. -/
structure OptionSet where
  fields : Fields Json := []

namespace OptionSet

def empty : OptionSet := ⟨[]⟩

def get? (options : OptionSet) (name : String) : Option Json := Fields.find? name options.fields

def set (options : OptionSet) (name : String) (value : Json) : OptionSet :=
  ⟨Fields.insert name value options.fields⟩

def ofFields (fields : Fields Json) : OptionSet := ⟨fields⟩

/-- Put every option of the second set over the first. -/
def extend (options overrides : OptionSet) : OptionSet :=
  ⟨Fields.extend options.fields overrides.fields⟩

def size (options : OptionSet) : Nat := options.fields.length

def isEmpty (options : OptionSet) : Bool := options.fields.isEmpty

/-- The options of a file outside every project. -/
def defaults : OptionSet := (empty.set "target" (.string "es5")).set "jsx" (.string "preserve")

/-- Whether nothing is to be written; only the value `true` says so. -/
def noEmit (options : OptionSet) : Bool := ((options.get? "noEmit").bind Json.asBool?).getD false

def forceNoEmit (options : OptionSet) : OptionSet := options.set "noEmit" (.bool true)

/-- The language version; a value that names none counts as missing. -/
def target (options : OptionSet) : ScriptTarget :=
  (((options.get? "target").bind Json.asString?).bind ScriptTarget.ofName?).getD .default

def toJson (options : OptionSet) : Json := .object options.fields

theorem get?_set_self (options : OptionSet) (name : String) (value : Json) :
    (options.set name value).get? name = some value :=
  Fields.find?_insert_self name value options.fields

theorem get?_set_of_ne (options : OptionSet) {name other : String} (value : Json)
    (h : other ≠ name) : (options.set name value).get? other = options.get? other :=
  Fields.find?_insert_of_ne value options.fields h

/-- Whatever was set before, nothing is written. -/
theorem noEmit_forceNoEmit (options : OptionSet) : options.forceNoEmit.noEmit = true := by
  simp [noEmit, forceNoEmit, get?_set_self, Json.asBool?]

end OptionSet
end BufferCheck
