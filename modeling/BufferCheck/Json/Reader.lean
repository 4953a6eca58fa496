import BufferCheck.Json.Numeral
import BufferCheck.Text.Utf16
import BufferCheck.Text.Utf8

/-!
Strict JSON texts. `Json.read?` reads a whole text. The steps it is made of take the text that
remains and give back what follows, so that a format with members of its own can read them one by
one; `skip?` passes over a value of any depth, for members that nobody looks at.
-/
namespace BufferCheck.Json.Reader

/-- The white space of JSON. -/
def isSpace (c : Char) : Bool := c = ' ' || c = '\t' || c = '\n' || c = '\r'

def skipSpace (cs : List Char) : List Char := cs.dropWhile isSpace

/-- The value of a hexadecimal digit. -/
def hexValue? (c : Char) : Option Nat :=
  if '0' ≤ c ∧ c ≤ '9' then some (c.toNat - 48)
  else if 'a' ≤ c ∧ c ≤ 'f' then some (c.toNat - 87)
  else if 'A' ≤ c ∧ c ≤ 'F' then some (c.toNat - 55)
  else none

/-- The character that a one-letter escape stands for. -/
def escape? (c : Char) : Option Char :=
  match c with
  | '"' => some '"'
  | '\\' => some '\\'
  | '/' => some '/'
  | 'b' => some '\x08'
  | 'f' => some '\x0c'
  | 'n' => some '\n'
  | 'r' => some '\r'
  | 't' => some '\t'
  | _ => none

/-- Where the reader stands inside a string. -/
inductive StringState where
  | plain
  | escaped
  /-- Inside a unit of hexadecimal digits, after a high surrogate or not. -/
  | unit (high : Option Nat) (owed : Nat) (value : Nat)
  /-- After a high surrogate, before the backslash of the low one. -/
  | lowBackslash (high : Nat)
  | lowLetter (high : Nat)

/-- One character of a string: the characters that are finished, and where the reader stands then.
Control characters and lone surrogates are refused. -/
def StringState.step (st : StringState) (done : List Char) (c : Char) :
    Option (List Char × StringState) :=
  match st with
  | .plain =>
    if c = '\\' then some (done, .escaped)
    else if c.toNat < 0x20 then none
    else some (c :: done, .plain)
  | .escaped =>
    if c = 'u' then some (done, .unit none 4 0)
    else (escape? c).map fun d => (d :: done, .plain)
  | .unit high owed value =>
    match hexValue? c with
    | none => none
    | some d =>
      let value := 16 * value + d
      if 1 < owed then some (done, .unit high (owed - 1) value)
      else match high with
        | some h => if Utf16.isLow value then some (Utf16.pair h value :: done, .plain) else none
        | none =>
          if Utf16.isHigh value then some (done, .lowBackslash value)
          else if Utf16.isLow value then none
          else some (Char.ofNat value :: done, .plain)
  | .lowBackslash high => if c = '\\' then some (done, .lowLetter high) else none
  | .lowLetter high => if c = 'u' then some (done, .unit (some high) 4 0) else none

/-- The characters of a string up to its closing quote, and what follows the quote. -/
def string? (st : StringState) (done : List Char) : List Char → Option (String × List Char)
  | [] => none
  | c :: cs =>
    match st, c with
    | .plain, '"' => some (.ofList done.reverse, cs)
    | st, c =>
      match st.step done c with
      | none => none
      | some (done, st) => string? st done cs

/-- The string whose opening quote has been read. -/
def stringBody? (cs : List Char) : Option (String × List Char) := string? .plain [] cs

mutual

/-- Read a value at the front of a text; `levels` more arrays and objects may open. -/
def value? (fuel levels : Nat) (cs : List Char) : Option (Json × List Char) :=
  match fuel with
  | 0 => none
  | fuel + 1 =>
    match skipSpace cs with
    | '"' :: r => (stringBody? r).map fun (s, r) => (.string s, r)
    | '[' :: r =>
      match levels, skipSpace r with
      | 0, _ => none
      | _ + 1, ']' :: r => some (.array [], r)
      | levels + 1, r => items? fuel levels [] r
    | '{' :: r =>
      match levels, skipSpace r with
      | 0, _ => none
      | _ + 1, '}' :: r => some (.object [], r)
      | levels + 1, r => members? fuel levels [] r
    | 'n' :: 'u' :: 'l' :: 'l' :: r => some (.null, r)
    | 't' :: 'r' :: 'u' :: 'e' :: r => some (.bool true, r)
    | 'f' :: 'a' :: 'l' :: 's' :: 'e' :: r => some (.bool false, r)
    | r =>
      match Numeral.read? r with
      | none => none
      | some (n, r) => n.value?.map fun v => (.number v, r)

/-- Read the items of an array up to its closing bracket, after those done. -/
def items? (fuel levels : Nat) (done : List Json) (cs : List Char) : Option (Json × List Char) :=
  match fuel with
  | 0 => none
  | fuel + 1 =>
    match value? fuel levels cs with
    | none => none
    | some (v, r) =>
      match skipSpace r with
      | ',' :: r => items? fuel levels (v :: done) r
      | ']' :: r => some (.array (v :: done).reverse, r)
      | _ => none

/-- Read the members of an object up to its closing brace, after those done; the last member of a
name wins. -/
def members? (fuel levels : Nat) (done : Fields Json) (cs : List Char) :
    Option (Json × List Char) :=
  match fuel with
  | 0 => none
  | fuel + 1 =>
    match skipSpace cs with
    | '"' :: r =>
      match stringBody? r with
      | none => none
      | some (name, r) =>
        match skipSpace r with
        | ':' :: r =>
          match value? fuel levels r with
          | none => none
          | some (v, r) =>
            match skipSpace r with
            | ',' :: r => members? fuel levels (done.insert name v) r
            | '}' :: r => some (.object (done.insert name v), r)
            | _ => none
        | _ => none
    | _ => none

end

/-- Enough steps to read anything of a text: each step but one before a value takes a character. -/
def steps (cs : List Char) : Nat := 2 * cs.length + 2

/-- Arrays and objects nest at most this deep. -/
def maxLevels : Nat := 127

/-- Only white space remains. -/
def atEnd (cs : List Char) : Bool := (skipSpace cs).isEmpty

/-- Where the reader stands inside a string that is passed over. -/
inductive SkipState where
  | plain
  | escaped
  | unit (owed : Nat)

/-- Pass over a string; hexadecimal digits are counted, and surrogates need no partner. -/
def skipString? (st : SkipState) : List Char → Option (List Char)
  | [] => none
  | c :: cs =>
    match st with
    | .plain =>
      if c = '"' then some cs
      else if c = '\\' then skipString? .escaped cs
      else if c.toNat < 0x20 then none
      else skipString? .plain cs
    | .escaped =>
      if c = 'u' then skipString? (.unit 4) cs
      else if (escape? c).isSome then skipString? .plain cs
      else none
    | .unit owed =>
      if (hexValue? c).isNone then none
      else if 1 < owed then skipString? (.unit (owed - 1)) cs
      else skipString? .plain cs

/-- Pass over the name of a member and its colon. -/
def skipName? (cs : List Char) : Option (List Char) :=
  match skipSpace cs with
  | '"' :: r =>
    match skipString? .plain r with
    | none => none
    | some r =>
      match skipSpace r with
      | ':' :: r => some r
      | _ => none
  | _ => none

/-- A bracket that is open. -/
inductive Bracket where
  | array
  | object

/-- Pass over the rest of a value, `due` telling whether a value or what follows one comes next.
Nesting, the range of numbers and surrogates are not looked at. -/
def skip? (fuel : Nat) (due : Bool) (stack : List Bracket) (cs : List Char) :
    Option (List Char) :=
  match fuel with
  | 0 => none
  | fuel + 1 =>
    if due then
      match skipSpace cs with
      | '"' :: r =>
        match skipString? .plain r with
        | none => none
        | some r => skip? fuel false stack r
      | '[' :: r =>
        match skipSpace r with
        | ']' :: r => skip? fuel false stack r
        | r => skip? fuel true (.array :: stack) r
      | '{' :: r =>
        match skipSpace r with
        | '}' :: r => skip? fuel false stack r
        | r =>
          match skipName? r with
          | none => none
          | some r => skip? fuel true (.object :: stack) r
      | 'n' :: 'u' :: 'l' :: 'l' :: r => skip? fuel false stack r
      | 't' :: 'r' :: 'u' :: 'e' :: r => skip? fuel false stack r
      | 'f' :: 'a' :: 'l' :: 's' :: 'e' :: r => skip? fuel false stack r
      | r =>
        match Numeral.read? r with
        | none => none
        | some (_, r) => skip? fuel false stack r
    else
      match stack with
      | [] => some cs
      | .array :: stack =>
        match skipSpace cs with
        | ',' :: r => skip? fuel true (.array :: stack) r
        | ']' :: r => skip? fuel false stack r
        | _ => none
      | .object :: stack =>
        match skipSpace cs with
        | ',' :: r =>
          match skipName? r with
          | none => none
          | some r => skip? fuel true (.object :: stack) r
        | '}' :: r => skip? fuel false stack r
        | _ => none

end Reader

open Reader in
/-- The value that a text holds, with nothing but white space around it. -/
def read? (cs : List Char) : Option Json :=
  match value? (steps cs) maxLevels cs with
  | some (v, r) => if atEnd r then some v else none
  | none => none

/-- The value that the bytes of a text hold. -/
def ofBytes? (bytes : List UInt8) : Option Json := do
  read? (← Utf8.decode? bytes).toList

end BufferCheck.Json
