import BufferCheck.Text.Ascii

/-! Language versions, from the oldest to the newest. -/
namespace BufferCheck

/-- The language version a file is read for. -/
inductive ScriptTarget where
  | es3 | es5 | es2015 | es2016 | es2017 | es2018 | es2019 | es2020 | es2021 | es2022 | es2023
  | es2024 | esnext | json
  deriving DecidableEq, Repr

namespace ScriptTarget

/-- The versions in order. -/
def all : List ScriptTarget :=
  [es3, es5, es2015, es2016, es2017, es2018, es2019, es2020, es2021, es2022, es2023, es2024, esnext,
    json]

def name : ScriptTarget → String
  | es3 => "es3"
  | es5 => "es5"
  | es2015 => "es2015"
  | es2016 => "es2016"
  | es2017 => "es2017"
  | es2018 => "es2018"
  | es2019 => "es2019"
  | es2020 => "es2020"
  | es2021 => "es2021"
  | es2022 => "es2022"
  | es2023 => "es2023"
  | es2024 => "es2024"
  | esnext => "esnext"
  | json => "json"

/-- The place of a version in the order. -/
def rank (t : ScriptTarget) : Nat := all.idxOf t

instance : LE ScriptTarget := ⟨fun s t => s.rank ≤ t.rank⟩

instance (s t : ScriptTarget) : Decidable (s ≤ t) := inferInstanceAs (Decidable (s.rank ≤ t.rank))

/-- The version that an option value names: its own name or one of two more, in any case. -/
def ofName? (value : String) : Option ScriptTarget :=
  let value := lowerAscii value
  if value = "es6" then some es2015
  else if value = "latest" then some esnext
  else all.find? (·.name = value)

/-- The version where none is named. -/
def default : ScriptTarget := es5

end ScriptTarget
end BufferCheck
