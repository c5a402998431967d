/-!
# Paths

A path has a root, of no slash, one slash or two slashes, and a list of parts. Reading a spelling
drops empty parts and parts that are a single dot, so that different spellings of one path become
equal; a part of two dots is kept, since it cannot be resolved without looking at the files.
-/

namespace TeenyBasic

/-- A path: the number of slashes at its root, and its parts. -/
structure Path where
  root : Nat
  parts : List String
  deriving DecidableEq, Repr

namespace Path

/-- Splits a text at its slashes. -/
def splitSlashes : List Char → List (List Char)
  | [] => [[]]
  | c :: rest =>
    if c = '/' then [] :: splitSlashes rest
    else
      match splitSlashes rest with
      | [] => [[c]]
      | first :: others => (c :: first) :: others

theorem slash_not_mem_of_mem_splitSlashes (text : List Char) :
    ∀ part ∈ splitSlashes text, '/' ∉ part := by
  induction text with
  | nil => simp [splitSlashes]
  | cons c rest ih =>
    unfold splitSlashes
    split
    · simpa using ih
    · rename_i hc
      split
      · simp [Ne.symm hc]
      · rename_i first others h
        simp_all [Ne.symm hc]

/-- Decides whether a part of a spelling names nothing of its own. -/
def isIdle (part : List Char) : Bool :=
  part = [] || part = ['.']

/-- The root of a spelling: exactly two leading slashes are kept, and more count as one. -/
def rootOf (spelling : List Char) : Nat :=
  match (spelling.takeWhile (· = '/')).length with
  | 0 => 0
  | 2 => 2
  | _ => 1

/-- The path that a spelling denotes. -/
def ofSpelling (spelling : String) : Path where
  root := rootOf spelling.toList
  parts := ((splitSlashes spelling.toList).filter fun part ↦ !isIdle part).map String.ofList

/-- The spelling of a path without anything superfluous; the empty path is a dot. -/
def text (path : Path) : String :=
  if path.root = 0 ∧ path.parts = [] then "."
  else String.ofList (List.replicate path.root '/') ++ "/".intercalate path.parts

/-- The name without its suffix. A suffix starts at the last dot, unless that dot is the first or
the last character of the name. -/
def stem (name : List Char) : List Char :=
  let after := name.reverse.takeWhile (· ≠ '.')
  let before := (name.reverse.dropWhile (· ≠ '.')).drop 1
  if after = [] ∨ before = [] then name else before.reverse

/-- The path with the suffix of its last part replaced, or with a suffix added if it has none. -/
def withSuffix (path : Path) (suffix : String) : Path :=
  match path.parts.getLast? with
  | none => path
  | some name =>
    { path with parts := path.parts.dropLast ++ [String.ofList (stem name.toList) ++ suffix] }

end Path

end TeenyBasic
