import TeenyBasic.Path

/-!
# Files

Programs are read from files and results are written to files. Both go through an interface of
three requests: the status of a path, the bytes of a file, and the replacement of a file's bytes.

The file store is a model of that interface: a working directory that holds files and directories.
A path is followed part by part. An empty part or a single dot stays where it is, two dots go to the
parent, and every other part names an entry; whatever is followed further must be a directory.
Outside the working directory nothing is found but the root, the directories above the working
directory, and the files that have been written there.
-/

namespace TeenyBasic

/-- Why a request about a file is refused: the number by which the system knows the fault, and its
words for it. -/
structure FileFault where
  code : Nat
  reason : String
  deriving DecidableEq, Repr

namespace FileFault

def notFound : FileFault := ⟨2, "No such file or directory"⟩

def notDirectory : FileFault := ⟨20, "Not a directory"⟩

def isDirectory : FileFault := ⟨21, "Is a directory"⟩

def nameTooLong : FileFault := ⟨36, "File name too long"⟩

/-- Decides whether a fault only says that nothing stands at a path: there is no such file, a
descriptor is bad, something on the way is no directory, or links lead round in a circle. -/
def isAbsence (fault : FileFault) : Bool :=
  [2, 9, 20, 40].contains fault.code

end FileFault

/-- What a path leads to. -/
inductive Status where
  | file
  | directory
  deriving DecidableEq, Repr

/-- The requests about files. Paths are given by their spelling. -/
class FileAccess (m : Type → Type) where
  status : String → m (Except FileFault Status)
  read : String → m (Except FileFault (List UInt8))
  write : String → List UInt8 → m (Except FileFault Unit)

/-- An entry of the working directory or of a directory below it. -/
inductive Entry where
  | file (content : List UInt8)
  | directory
  deriving DecidableEq, Repr

/-- The status of an entry. -/
def Entry.status : Entry → Status
  | .file _ => .file
  | .directory => .directory

/-- A directory outside the store: the root, or the one so many levels above the parent of the
working directory. -/
inductive OuterDirectory where
  | root
  | above (levels : Nat)
  deriving DecidableEq, Repr

/-- A working directory: entries with the names that lead to them, and the files that have been
written outside of it, the latest first. -/
structure FileStore where
  entries : List (List String × Entry)
  foreign : List ((OuterDirectory × String) × List UInt8)
  deriving DecidableEq, Repr

/-- Where following a path has led. -/
inductive Place where
  /-- The working directory or something below it, which may not exist. -/
  | inside (names : List String)
  /-- A directory outside the store. -/
  | outside (directory : OuterDirectory)
  /-- Something in such a directory, which may not exist. -/
  | beyond (directory : OuterDirectory) (name : String)
  deriving DecidableEq, Repr

namespace FileStore

/-- The store of an empty working directory. -/
def empty : FileStore := ⟨[], []⟩

/-- The entry that names lead to; no names lead to the working directory itself. -/
def find? (store : FileStore) (names : List String) : Option Entry :=
  if names = [] then some .directory else store.entries.lookup names

/-- The entry at a place. -/
def entryAt (store : FileStore) : Place → Option Entry
  | .inside names => store.find? names
  | .outside _ => some .directory
  | .beyond directory name => (store.foreign.lookup (directory, name)).map .file

/-- The parent of a directory; the root is its own. -/
def parent : Place → Place
  | .inside [] => .outside (.above 0)
  | .inside names => .inside names.dropLast
  | .outside (.above levels) => .outside (.above (levels + 1))
  | place => place

/-- The entry of a directory with a name. -/
def child (name : String) : Place → Place
  | .inside names => .inside (names ++ [name])
  | .outside directory => .beyond directory name
  | place => place

/-- The greatest number of bytes in a name. -/
def nameLimit : Nat := 255

/-- The greatest number of bytes in the spelling of a path. -/
def pathLimit : Nat := 4095

/-- Follows one part of a path. -/
def follow (store : FileStore) (place : Place) (part : String) : Except FileFault Place :=
  match store.entryAt place with
  | none => .error .notFound
  | some (.file _) => .error .notDirectory
  | some .directory =>
    if part = "" ∨ part = "." then .ok place
    else if part = ".." then .ok (parent place)
    else if nameLimit < part.utf8ByteSize then .error .nameTooLong
    else .ok (child part place)

/-- Follows a path from the working directory. A spelling that starts with a slash starts at the
root, an empty spelling leads nowhere, and a spelling that is too long is refused as a whole. -/
def locate (store : FileStore) (spelling : String) : Except FileFault Place :=
  let parts := (Path.splitSlashes spelling.toList).map String.ofList
  if spelling = "" then .error .notFound
  else if pathLimit < spelling.utf8ByteSize then .error .nameTooLong
  else
    let start := if Path.rootOf spelling.toList = 0 then .inside [] else .outside .root
    parts.foldlM store.follow start

/-- The status of what a path leads to. -/
def status (store : FileStore) (spelling : String) : Except FileFault Status := do
  match store.entryAt (← store.locate spelling) with
  | none => .error .notFound
  | some entry => .ok entry.status

/-- The content of the file that a path leads to. -/
def read (store : FileStore) (spelling : String) : Except FileFault (List UInt8) := do
  match store.entryAt (← store.locate spelling) with
  | none => .error .notFound
  | some .directory => .error .isDirectory
  | some (.file content) => .ok content

/-- The store with an entry at the given names, in place of the one that was there. -/
def set (store : FileStore) (names : List String) (entry : Entry) : FileStore :=
  if store.entries.any (·.1 = names) then
    { store with entries :=
        store.entries.map fun old ↦ if old.1 = names then (names, entry) else old }
  else { store with entries := store.entries ++ [(names, entry)] }

theorem lookup_replace (entries : List (List String × Entry)) (names other : List String)
    (entry : Entry) :
    (entries.map fun old ↦ if old.1 = names then (names, entry) else old).lookup other =
      if other = names then (entries.lookup names).map fun _ ↦ entry else entries.lookup other := by
  induction entries with
  | nil => simp
  | cons old rest ih =>
    obtain ⟨key, value⟩ := old
    by_cases hkey : key = names
    · subst hkey
      by_cases hother : other = key
      · simp [hother]
      · simp [List.lookup_cons, beq_false_of_ne hother, hother, ih]
    · by_cases hother : other = names
      · subst hother
        simpa [List.lookup_cons, hkey, beq_false_of_ne (Ne.symm hkey)] using ih
      · simp [List.lookup_cons, hkey, hother, ih]

theorem find?_set_self (store : FileStore) (names : List String) (entry : Entry)
    (h : names ≠ []) : (store.set names entry).find? names = some entry := by
  simp only [find?, h, if_false, set]
  split
  · rename_i hany
    have hfound : store.entries.lookup names ≠ none := fun hnone ↦ by
      obtain ⟨old, hmem, heq⟩ := List.any_eq_true.mp hany
      have hne := List.lookup_eq_none_iff.mp hnone old hmem
      simp_all
    obtain ⟨found, hfound⟩ := Option.ne_none_iff_exists'.mp hfound
    simp [lookup_replace, hfound]
  · rename_i hany
    have hnone : store.entries.lookup names = none := List.lookup_eq_none_iff.mpr fun old hmem ↦ by
      have hne : old.1 ≠ names := fun heq ↦ hany (List.any_eq_true.mpr ⟨old, hmem, by simp [heq]⟩)
      simpa using Ne.symm hne
    simp [List.lookup_append, hnone]

theorem find?_set_of_ne (store : FileStore) (names other : List String) (entry : Entry)
    (h : other ≠ names) : (store.set names entry).find? other = store.find? other := by
  have hne : (other == names) = false := by simpa using h
  unfold find? set
  split
  · rfl
  · split
    · simp [lookup_replace, h]
    · simp [List.lookup_append, List.lookup_cons, hne]

@[simp] theorem foreign_set (store : FileStore) (names : List String) (entry : Entry) :
    (store.set names entry).foreign = store.foreign := by
  unfold set
  split <;> rfl

/-- The store with a file at a place that is no directory. -/
def put (store : FileStore) (content : List UInt8) : Place → FileStore
  | .inside names => store.set names (.file content)
  | .beyond directory name =>
    { store with foreign := ((directory, name), content) :: store.foreign }
  | .outside _ => store

/-- After a file has been put at a place, it stands there, and all other places are as before. -/
theorem entryAt_put (store : FileStore) (content : List UInt8) {place : Place}
    (h : store.entryAt place ≠ some .directory) (other : Place) :
    (store.put content place).entryAt other =
      if other = place then some (.file content) else store.entryAt other := by
  cases place with
  | inside names =>
    have hnames : names ≠ [] := fun hnil ↦ h (by simp [entryAt, find?, hnil])
    cases other with
    | inside others =>
      by_cases heq : others = names
      · simp [put, entryAt, heq, find?_set_self _ _ _ hnames]
      · simp [put, entryAt, heq, find?_set_of_ne _ _ _ _ heq]
    | outside directory => simp [entryAt]
    | beyond directory name => simp [put, entryAt]
  | outside directory => simp [entryAt] at h
  | beyond directory name =>
    cases other with
    | inside others => simp [put, entryAt, find?]
    | outside other => simp [entryAt]
    | beyond other otherName =>
      by_cases heq : (other, otherName) = (directory, name)
      · simp_all [put, entryAt]
      · have hne : ((other, otherName) == (directory, name)) = false := beq_false_of_ne heq
        have hplace : Place.beyond other otherName ≠ .beyond directory name := by simpa using heq
        simp only [put, entryAt, List.lookup_cons, hne, if_neg hplace]

/-- The store after the content of the file that a path leads to has been replaced. A file that does
not exist is made. -/
def write (store : FileStore) (spelling : String) (content : List UInt8) :
    Except FileFault FileStore := do
  let place ← store.locate spelling
  if store.entryAt place = some .directory then .error .isDirectory
  else .ok (store.put content place)

/-- The store with an entry at the given names and with directories on the way to it. -/
def place (store : FileStore) (names : List String) (entry : Entry) : FileStore :=
  let ancestors := (List.range names.length).map fun n ↦ names.take n
  let ensureDirectory (store : FileStore) (names : List String) : FileStore :=
    if (store.find? names).isSome then store else store.set names .directory
  let withParents := ancestors.foldl ensureDirectory store
  match entry, withParents.find? names with
  | .directory, some _ => withParents
  | _, _ => withParents.set names entry

end FileStore

instance : FileAccess (StateM FileStore) where
  status spelling := return (← get).status spelling
  read spelling := return (← get).read spelling
  write spelling content := do
    match (← get).write spelling content with
    | .error fault => return .error fault
    | .ok store =>
      set store
      return .ok ()

end TeenyBasic
