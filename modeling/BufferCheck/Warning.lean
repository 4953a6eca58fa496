/-! What a check passes over, and tells. -/
namespace BufferCheck

/-- Something that was left out. -/
inductive Warning where
  /-- A configuration names one that is not there. -/
  | extendsNotFound (config specifier : String)
  /-- A configuration leads back to one that is being read. -/
  | extendsCircular (config base : String)
  /-- The host has no such root. -/
  | rootUnreadable (file complaint : String)
  deriving DecidableEq, Repr

/-- A warning by the names of its parts. -/
def Warning.fields : Warning → List (String × String)
  | extendsNotFound config specifier =>
    [("message", "extended config not found, skipping"), ("config", config), ("extends", specifier)]
  | extendsCircular config base =>
    [("message", "circular extends, skipping"), ("config", config), ("extends", base)]
  | rootUnreadable file complaint => [("message", complaint), ("file", file)]

end BufferCheck
