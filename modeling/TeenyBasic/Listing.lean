/-!
# Listings

A C program under construction. Declarations may turn up anywhere in the source program but must
precede all statements in C, so a listing has two parts that grow independently: a header of whole
lines and a body of text. The finished program is the header followed by the body.
-/

namespace TeenyBasic

/-- The two parts of a C program under construction. -/
structure Listing where
  header : String
  body : String
  deriving DecidableEq, Repr

namespace Listing

/-- The listing that holds nothing. -/
def empty : Listing := ⟨"", ""⟩

/-- Adds a line to the header. -/
def declare (listing : Listing) (line : String) : Listing :=
  { listing with header := listing.header ++ line ++ "\n" }

/-- Adds text to the body. -/
def write (listing : Listing) (text : String) : Listing :=
  { listing with body := listing.body ++ text }

/-- Adds text to the body and ends its line. -/
def writeLine (listing : Listing) (text : String) : Listing :=
  { listing with body := listing.body ++ text ++ "\n" }

/-- The whole program text. -/
def output (listing : Listing) : String :=
  listing.header ++ listing.body

theorem writeLine_eq_write (listing : Listing) (text : String) :
    listing.writeLine text = listing.write (text ++ "\n") := by
  simp [writeLine, write, String.append_assoc]

end Listing

end TeenyBasic
