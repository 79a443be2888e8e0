/-! Printed text that may break off. -/

namespace GameScript

/-- The text printed so far, and whether printing stopped at a statement that has no text. -/
structure Output where
  text : String
  stopped : Bool
deriving DecidableEq, Repr

namespace Output

def ofText (text : String) : Output := ⟨text, false⟩

instance : Coe String Output := ⟨ofText⟩

def append (first second : Output) : Output :=
  if first.stopped then first else ⟨first.text ++ second.text, second.stopped⟩

instance : Append Output := ⟨append⟩

def stop : Output := ⟨"", true⟩

end Output

end GameScript
