import TeenyBasic.Compiler

/-!
# File systems

What may be relied on of the files that a compiler works with. A path leads to a spot, and at a spot
stands nothing, a directory or a file. Looking at a path and reading a file leave everything where
it stands, and so does a write that is refused. A write that is not refused puts a file with the
given bytes at the spot that the path leads to, before and after, and touches no other spot. Which
paths lead anywhere and which writes are refused is left open.

The file store has these properties: every place that a path passes is a directory, so that a file
that is put somewhere cannot come in the way.
-/

namespace TeenyBasic

/-- The answer to a request about files, and the files that it leaves. -/
def outcome {φ α : Type} (request : StateM φ α) (files : φ) : α × φ :=
  request.run files

theorem outcome_bind {φ α β : Type} (request : StateM φ α) (next : α → StateM φ β) (files : φ) :
    outcome (request >>= next) files =
      outcome (next (outcome request files).1) (outcome request files).2 :=
  rfl

section

variable {φ : Type} [FileAccess (StateM φ)]

/-- The outcome of looking at a path. -/
def look (path : String) : φ → Except FileFault Status × φ :=
  outcome (FileAccess.status path)

/-- The outcome of reading the file at a path. -/
def readAt (path : String) : φ → Except FileFault (List UInt8) × φ :=
  outcome (FileAccess.read path)

/-- The outcome of writing to the file at a path. -/
def writeAt (path : String) (bytes : List UInt8) : φ → Except FileFault Unit × φ :=
  outcome (FileAccess.write path bytes)

end

/-- Files that are given by a state and behave as one expects. -/
class LawfulFileAccess (φ : Type) [FileAccess (StateM φ)] where
  Spot : Type
  locate : φ → String → Option Spot
  entryAt : φ → Spot → Option Entry
  entryAt_look (path : String) (files : φ) : entryAt (look path files).2 = entryAt files
  entryAt_readAt (path : String) (files : φ) : entryAt (readAt path files).2 = entryAt files
  readAt_eq_ok_iff (path : String) (files : φ) (bytes : List UInt8) :
    (readAt path files).1 = .ok bytes ↔
      (locate files path).bind (entryAt files) = some (.file bytes)
  entryAt_writeAt_of_error (path : String) (bytes : List UInt8) (files : φ) (fault : FileFault) :
    (writeAt path bytes files).1 = .error fault →
      entryAt (writeAt path bytes files).2 = entryAt files
  exists_spot_of_writeAt (path : String) (bytes : List UInt8) (files : φ) :
    (writeAt path bytes files).1 = .ok () → ∃ spot,
      locate files path = some spot ∧ locate (writeAt path bytes files).2 path = some spot ∧
      entryAt (writeAt path bytes files).2 spot = some (.file bytes) ∧
      ∀ other, other ≠ spot → entryAt (writeAt path bytes files).2 other = entryAt files other

section

variable {φ : Type} [FileAccess (StateM φ)] [LawfulFileAccess φ]

open LawfulFileAccess

/-- The same entries stand at the same spots. -/
def SameFiles (files files' : φ) : Prop :=
  entryAt files' = entryAt files

/-- The file at a path has been replaced by one with the given bytes, and nothing else has. -/
def Replaces (files : φ) (path : String) (bytes : List UInt8) (files' : φ) : Prop :=
  ∃ spot, locate files path = some spot ∧ locate files' path = some spot ∧
    entryAt files' spot = some (.file bytes) ∧
    ∀ other, other ≠ spot → entryAt files' other = entryAt files other

variable {path : String} {bytes : List UInt8} {files files' : φ}

theorem sameFiles_of_writeAt {fault : FileFault}
    (h : writeAt path bytes files = (.error fault, files')) : SameFiles files files' := by
  have hfiles := entryAt_writeAt_of_error path bytes files fault (by rw [h])
  rwa [h] at hfiles

theorem replaces_of_writeAt (h : writeAt path bytes files = (.ok (), files')) :
    Replaces files path bytes files' := by
  have hspot := exists_spot_of_writeAt path bytes files (by rw [h])
  rwa [h] at hspot

theorem Replaces.readAt_eq (h : Replaces files path bytes files') :
    (readAt path files').1 = .ok bytes := by
  obtain ⟨spot, _, hlocate, hentry, _⟩ := h
  rw [readAt_eq_ok_iff, hlocate, Option.bind_some, hentry]

end

namespace FileStore

variable {store : FileStore} {place : Place} {spelling : String} {content bytes : List UInt8}

theorem entryAt_of_follow {start after : Place} {part : String}
    (h : store.follow start part = .ok after) : store.entryAt start = some .directory := by
  unfold follow at h
  split at h
  · cases h
  · cases h
  · assumption

theorem foldlM_follow_put (hplace : store.entryAt place ≠ some .directory) (parts : List String)
    (start : Place) {target : Place} (h : parts.foldlM store.follow start = .ok target) :
    parts.foldlM (store.put content place).follow start = .ok target := by
  induction parts generalizing start with
  | nil => exact h
  | cons part parts ih =>
    rw [List.foldlM_cons] at h ⊢
    cases hnext : store.follow start part with
    | error fault =>
      rw [hnext] at h
      cases h
    | ok after =>
      rw [hnext] at h
      have hstart : start ≠ place := fun heq ↦ hplace (heq ▸ entryAt_of_follow hnext)
      have hsame : (store.put content place).follow start part = store.follow start part := by
        simp only [follow, entryAt_put store content hplace, if_neg hstart]
      rw [hsame, hnext]
      exact ih after h

/-- A path leads to the same place after a file has been put somewhere. -/
theorem locate_put (hplace : store.entryAt place ≠ some .directory) {target : Place}
    (h : store.locate spelling = .ok target) :
    (store.put content place).locate spelling = .ok target := by
  unfold locate at h ⊢
  split at h
  · cases h
  split at h
  · cases h
  rw [if_neg ‹_›, if_neg ‹_›]
  exact foldlM_follow_put hplace _ _ h

theorem write_eq_ok_iff {store' : FileStore} :
    store.write spelling content = .ok store' ↔
      ∃ place, store.locate spelling = .ok place ∧ store.entryAt place ≠ some .directory ∧
        store' = store.put content place := by
  unfold write
  cases store.locate spelling with
  | error fault => simp [bind, Except.bind]
  | ok place =>
    by_cases hplace : store.entryAt place = some .directory
    · simp [bind, Except.bind, hplace]
    · simp [bind, Except.bind, hplace, eq_comm (a := store')]

theorem read_eq_ok_iff :
    store.read spelling = .ok bytes ↔
      (store.locate spelling).toOption.bind store.entryAt = some (.file bytes) := by
  unfold read
  cases store.locate spelling with
  | error fault => simp [bind, Except.bind, Except.toOption]
  | ok place =>
    simp only [bind, Except.bind, Except.toOption, Option.bind]
    cases store.entryAt place with
    | none => simp
    | some entry => cases entry <;> simp

theorem writeAt_eq (store : FileStore) :
    writeAt spelling content store =
      match store.write spelling content with
      | .error fault => (.error fault, store)
      | .ok store' => (.ok (), store') := by
  simp only [writeAt, outcome, FileAccess.write, StateT.run_bind, StateT.run_get, pure_bind]
  cases store.write spelling content <;> rfl

theorem read_eq_ok_iff_of_locate (h : store.locate spelling = .ok place) :
    store.read spelling = .ok bytes ↔ store.entryAt place = some (.file bytes) := by
  rw [read_eq_ok_iff, h]
  rfl

theorem exists_locate_of_read (h : store.read spelling = .ok bytes) :
    ∃ place, store.locate spelling = .ok place ∧ store.entryAt place = some (.file bytes) := by
  cases hlocate : store.locate spelling with
  | error fault =>
    rw [read, hlocate] at h
    cases h
  | ok place => exact ⟨place, rfl, (read_eq_ok_iff_of_locate hlocate).mp h⟩

/-- A file stays as it is unless other bytes are written to its own place. -/
theorem read_writeAt_iff (target : String) (h : store.locate spelling = .ok place)
    (hentry : store.entryAt place = some (.file bytes)) (hcontent : content ≠ bytes) :
    (writeAt target content store).2.read spelling = .ok bytes ↔
      store.locate target ≠ .ok place := by
  rw [writeAt_eq]
  cases hwrite : store.write target content with
  | error fault =>
    have hread : store.read spelling = .ok bytes := (read_eq_ok_iff_of_locate h).mpr hentry
    refine iff_of_true hread fun hsame ↦ ?_
    have hdone : store.write target content = .ok (store.put content place) :=
      write_eq_ok_iff.mpr ⟨place, hsame, by simp [hentry], rfl⟩
    cases hwrite.symm.trans hdone
  | ok store' =>
    obtain ⟨other, htarget, hother, rfl⟩ := write_eq_ok_iff.mp hwrite
    dsimp only
    rw [read_eq_ok_iff_of_locate (locate_put hother h), entryAt_put _ _ hother, htarget]
    by_cases hsame : place = other
    · simp [hsame, hcontent]
    · simp [hsame, Ne.symm hsame, hentry]

end FileStore

instance : LawfulFileAccess FileStore where
  Spot := Place
  locate store path := (store.locate path).toOption
  entryAt := FileStore.entryAt
  entryAt_look _ _ := rfl
  entryAt_readAt _ _ := rfl
  readAt_eq_ok_iff _ _ _ := FileStore.read_eq_ok_iff
  entryAt_writeAt_of_error path bytes store fault h := by
    rw [FileStore.writeAt_eq] at h ⊢
    cases hwrite : store.write path bytes with
    | error fault => rfl
    | ok store' => simp [hwrite] at h
  exists_spot_of_writeAt path bytes store h := by
    rw [FileStore.writeAt_eq] at h ⊢
    cases hwrite : store.write path bytes with
    | error fault => simp [hwrite] at h
    | ok store' =>
      obtain ⟨place, hlocate, hplace, rfl⟩ := FileStore.write_eq_ok_iff.mp hwrite
      have hafter : (store.put bytes place).locate path = .ok place :=
        FileStore.locate_put hplace hlocate
      refine ⟨place, by simp [hlocate, Except.toOption], by simp [hafter, Except.toOption], ?_, ?_⟩
      · rw [FileStore.entryAt_put _ _ hplace, if_pos rfl]
      · intro other hother
        rw [FileStore.entryAt_put _ _ hplace, if_neg hother]

end TeenyBasic
