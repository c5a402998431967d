import TeenyBasic.Proofs.Reading.Recovery
import TeenyBasic.Proofs.Text.Encoding
import TeenyBasic.Proofs.Session.History

/-!
# Files in a session

What the requests to a compiler do to files, whatever requests have come before and however these
have ended. Compilations only read: they give what a compiler would give that has not been used
before. A write puts the text of the last compilation that succeeded into one file, or it fails and
changes nothing. No translation holds a carriage return, so that a file that has been written is
read back, with its line endings unified, as exactly the text of that compilation.

The main statement is `Session.isFaithful_after`.
-/

namespace TeenyBasic

open Source

theorem not_mem_closedLines {c : Char} (hc : c ≠ '\n') {lines : List String}
    (h : ∀ line ∈ lines, c ∉ line.toList) : c ∉ (closedLines lines).toList := by
  induction lines with
  | nil => simp
  | cons line lines ih =>
    have hline := h line List.mem_cons_self
    have hrest := ih fun line hline ↦ h line (List.mem_cons_of_mem _ hline)
    simpa [hc] using ⟨hline, hrest⟩

theorem carriageReturn_not_mem_text {options : Options} (hvalid : options.Valid)
    {source file : String} {compilation : Compilation}
    (h : options.compile source file = .ok compilation) : '\r' ∉ compilation.text.toList := by
  obtain ⟨program, names, _, hspelled, hnames, htext⟩ := exists_program_of_compile h
  have hlines := lineBreak_not_mem_mainLines (.inr rfl) hvalid.2 hnames hspelled
  rw [htext]
  apply not_mem_closedLines (by decide)
  simpa only [mainLines, List.append_assoc] using hlines

section

variable {φ : Type} [FileAccess (StateM φ)] {options : Options}

/-- A compilation gives what a fresh compiler gives for the same text. -/
theorem compileSource_eq_fresh {compiler : Compiler} (h : compiler.options = options)
    (source file : String) : (compiler.compileSource source file).2 =
      ((Compiler.fresh options).compileSource source file).2 := by
  unfold Compiler.compileSource Compiler.fresh
  rw [h]
  cases options.compile source file <;> rfl

theorem compileFile_eq_fresh {compiler : Compiler} (h : compiler.options = options)
    (spelling : String) (files : φ) : (outcome (compiler.compileFile spelling) files).1.2 =
      (outcome ((Compiler.fresh options).compileFile spelling) files).1.2 := by
  rw [outcome_compileFile, outcome_compileFile]
  cases (outcome (fetch spelling) files).1 with
  | error failure => rfl
  | ok source => simp only [compileSource_eq_fresh h]

theorem Session.Recalls.exists_compile_of_answer {session : Session φ}
    (h : session.Recalls options) {request : Request} {compilation : Compilation}
    (hreply : (session.answer request).1 = .compiled (.ok compilation)) :
    ∃ source file, options.compile source file = .ok compilation := by
  have hlast : (session.answer request).2.history.lastCompiled = some compilation := by
    change History.lastCompiled ((request, (session.answer request).1) :: session.history) = _
    rw [hreply]
    rfl
  exact (h.answer request).exists_compile compilation hlast

theorem Delivers.ne_nothingCompiled {files files' : φ} {text : String} {target : Option Path}
    {result : Except Failure String} (h : Delivers files text target result files') :
    result ≠ .error .nothingCompiled := by
  cases h <;> simp

/-- What the file system carries out is delivered. -/
theorem Delivers.eq_ok {files files' : φ} {text : String} {path : Path}
    {result : Except Failure String} (h : Delivers files text (some path) result files')
    (hpath : holdsNull path.text = false)
    (hwritten : (writeAt path.text (Text.Utf8.encode text.toList) files).1 = .ok ()) :
    result = .ok path.text := by
  cases h with
  | null hnull =>
    rw [hpath] at hnull
    cases hnull
  | refused _ hwrite =>
    rw [hwrite] at hwritten
    cases hwritten
  | done _ _ => rfl

end

section

variable {φ : Type} [FileAccess (StateM φ)] [LawfulFileAccess φ]

/-- A request that changes no file. -/
def Quiet {α : Type} (request : StateM φ α) : Prop :=
  ∀ files, SameFiles files (outcome request files).2

theorem quiet_pure {α : Type} (value : α) : Quiet (pure value : StateM φ α) :=
  fun _ ↦ rfl

theorem quiet_bind {α β : Type} {request : StateM φ α} {next : α → StateM φ β}
    (hrequest : Quiet request) (hnext : ∀ value, Quiet (next value)) :
    Quiet (request >>= next) := by
  intro files
  rw [outcome_bind]
  exact (hnext _ _).trans (hrequest files)

theorem quiet_status (path : String) : Quiet (FileAccess.status path : StateM φ _) :=
  LawfulFileAccess.entryAt_look path

theorem quiet_read (path : String) : Quiet (FileAccess.read path : StateM φ _) :=
  LawfulFileAccess.entryAt_readAt path

theorem quiet_requireSource (spelling : String) (path : Path) :
    Quiet (requireSource spelling path : StateM φ _) := by
  unfold requireSource
  split
  · exact quiet_pure _
  · refine quiet_bind (quiet_status path.text) fun status ↦ ?_
    split
    · split <;> exact quiet_pure _
    · exact quiet_pure _

theorem quiet_readSource (path : Path) : Quiet (readSource path : StateM φ _) := by
  refine quiet_bind (quiet_read path.text) fun bytes ↦ ?_
  split
  · exact quiet_pure _
  · split <;> exact quiet_pure _

theorem quiet_fetch (spelling : String) : Quiet (fetch spelling : StateM φ _) := by
  refine quiet_bind (quiet_requireSource spelling _) fun found ↦ ?_
  split
  · exact quiet_pure _
  · exact quiet_readSource _

theorem sameFiles_of_compileFile (compiler : Compiler) (spelling : String) (files : φ) :
    SameFiles files (outcome (compiler.compileFile spelling) files).2 := by
  simp only [outcome_compileFile]
  exact quiet_fetch spelling files

theorem readSource_of_replaces {files files' : φ} {path : Path} {text : String}
    (h : Replaces files path.text (Text.Utf8.encode text.toList) files')
    (htext : '\r' ∉ text.toList) : (outcome (readSource path) files').1 = .ok text := by
  have hbytes : (outcome (FileAccess.read path.text) files').1 =
      .ok (Text.Utf8.encode text.toList) := h.readAt_eq
  unfold readSource
  rw [outcome_bind, hbytes]
  simp only [Text.Utf8.decode_encode, Text.unifyLineEndings_of_not_mem _ htext,
    String.ofList_toList]
  rfl

theorem Delivers.sameFiles_of_error {files files' : φ} {text : String} {target : Option Path}
    {failure : Failure} (h : Delivers files text target (.error failure) files') :
    SameFiles files files' := by
  cases h with
  | unset => rfl
  | null _ => rfl
  | refused _ hwrite => exact sameFiles_of_writeAt hwrite

/-- What a request comes to in a session, as far as its reply and the files show it. -/
structure Session.IsFaithful (options : Options) (session : Session φ) (request : Request) :
    Prop where
  /-- A text is compiled as if for the first time. -/
  compileSource : ∀ source file, request = .compileSource source file →
    (session.answer request).1 =
      .compiled ((Compiler.fresh options).compileSource source file).2
  /-- A file is compiled as if for the first time. -/
  compileFile : ∀ path, request = .compileFile path →
    (session.answer request).1 =
      .compiled (outcome ((Compiler.fresh options).compileFile path) session.files).1.2
  /-- Compiling changes no file. -/
  sameFiles_of_compile : (∀ path, request ≠ .writeOutput path) →
    SameFiles session.files (session.answer request).2.files
  /-- A write comes too early exactly if no compilation has succeeded. -/
  nothingCompiled_iff : ∀ path, request = .writeOutput path →
    ((session.answer request).1 = .written (.error .nothingCompiled) ↔
      session.history.lastCompiled = none)
  /-- A write that succeeds puts the text of the last compilation that has succeeded into the file
  at the path it gives back, from where it is read back, and changes no other file. -/
  written : ∀ path, (session.answer request).1 = .written (.ok path) →
    ∃ compilation, session.history.lastCompiled = some compilation ∧
      Replaces session.files path (Text.Utf8.encode compilation.text.toList)
        (session.answer request).2.files ∧
      ∃ destination : Path, destination.text = path ∧
        (outcome (readSource destination) (session.answer request).2.files).1 =
          .ok compilation.text
  /-- A write to a path that it is given succeeds if the file system carries it out. -/
  written_of_writeAt : ∀ path compilation, request = .writeOutput (some path) →
    session.history.lastCompiled = some compilation →
    holdsNull (Path.ofSpelling path).text = false →
    (writeAt (Path.ofSpelling path).text (Text.Utf8.encode compilation.text.toList)
      session.files).1 = .ok () →
    (session.answer request).1 = .written (.ok (Path.ofSpelling path).text)
  /-- A request that fails changes no file. -/
  sameFiles_of_error : ∀ failure, (session.answer request).1 = .compiled (.error failure) ∨
      (session.answer request).1 = .written (.error failure) →
    SameFiles session.files (session.answer request).2.files
  /-- What is compiled holds no carriage return. -/
  carriageReturn_not_mem : ∀ compilation,
    (session.answer request).1 = .compiled (.ok compilation) → '\r' ∉ compilation.text.toList

namespace Session

variable {options : Options} {session : Session φ}

theorem sameFiles_of_compile (session : Session φ) {request : Request}
    (h : ∀ path, request ≠ .writeOutput path) :
    SameFiles session.files (session.answer request).2.files := by
  cases request with
  | compileSource source file =>
    simp only [answer, Compiler.respond]
    rfl
  | compileFile path =>
    simp only [answer, Compiler.respond]
    exact sameFiles_of_compileFile session.compiler path session.files
  | writeOutput path => exact absurd rfl (h path)

theorem Recalls.answer_of_none (h : session.Recalls options)
    (hlast : session.history.lastCompiled = none) (given : Option String) :
    (session.answer (.writeOutput given)).1 = .written (.error .nothingCompiled) ∧
      SameFiles session.files (session.answer (.writeOutput given)).2.files := by
  simp only [Session.answer, Compiler.respond, outcome_writeOutput_of_none (h.draft_of_none hlast)]
  exact ⟨trivial, rfl⟩

theorem Recalls.nothingCompiled_iff (h : session.Recalls options) (given : Option String) :
    (session.answer (.writeOutput given)).1 = .written (.error .nothingCompiled) ↔
      session.history.lastCompiled = none := by
  constructor
  · intro hreply
    by_contra hlast
    obtain ⟨compilation, hcompiled⟩ := Option.ne_none_iff_exists'.mp hlast
    obtain ⟨result, hresult, hdelivers⟩ := h.delivers hcompiled given
    exact hdelivers.ne_nothingCompiled (Reply.written.inj (hresult.symm.trans hreply))
  · exact fun hlast ↦ (h.answer_of_none hlast given).1

/-- A write that succeeds. -/
theorem Recalls.written (h : session.Recalls options) (hvalid : options.Valid) {request : Request}
    {path : String} (hreply : (session.answer request).1 = .written (.ok path)) :
    ∃ compilation, session.history.lastCompiled = some compilation ∧
      Replaces session.files path (Text.Utf8.encode compilation.text.toList)
        (session.answer request).2.files ∧
      ∃ destination : Path, destination.text = path ∧
        (outcome (readSource destination) (session.answer request).2.files).1 =
          .ok compilation.text := by
  cases request with
  | compileSource source file => cases hreply
  | compileFile path => cases hreply
  | writeOutput given =>
    cases hlast : session.history.lastCompiled with
    | none =>
      rw [(h.answer_of_none hlast given).1] at hreply
      cases hreply
    | some compilation =>
      obtain ⟨result, hresult, hdelivers⟩ := h.delivers hlast given
      obtain rfl : result = .ok path := Reply.written.inj (hresult.symm.trans hreply)
      obtain ⟨source, file, hcompile⟩ := h.exists_compile compilation hlast
      generalize (given.map Path.ofSpelling).or (session.history.destination options) = target
        at hdelivers
      cases hdelivers with
      | @done destination _ _ hwrite =>
        have hreplaces := replaces_of_writeAt hwrite
        exact ⟨compilation, rfl, hreplaces, destination, rfl,
          readSource_of_replaces hreplaces (carriageReturn_not_mem_text hvalid hcompile)⟩

theorem Recalls.sameFiles_of_error (h : session.Recalls options) {request : Request}
    {failure : Failure} (hreply : (session.answer request).1 = .compiled (.error failure) ∨
      (session.answer request).1 = .written (.error failure)) :
    SameFiles session.files (session.answer request).2.files := by
  cases request with
  | compileSource source file => exact session.sameFiles_of_compile (by simp)
  | compileFile path => exact session.sameFiles_of_compile (by simp)
  | writeOutput given =>
    cases hlast : session.history.lastCompiled with
    | none => exact (h.answer_of_none hlast given).2
    | some compilation =>
      obtain ⟨result, hresult, hdelivers⟩ := h.delivers hlast given
      have hfailed : result = .error failure := by
        rcases hreply with hreply | hreply
        · cases hreply
        · exact Reply.written.inj (hresult.symm.trans hreply)
      exact (hfailed ▸ hdelivers).sameFiles_of_error

/-- Whatever has been asked of a compiler, its answer to the next request is faithful. -/
theorem isFaithful_after (options : Options) (hvalid : options.Valid) (files : φ)
    (requests : List Request) (request : Request) :
    ((start options files).after requests).IsFaithful options request := by
  have h := recalls_after options files requests
  generalize (start options files).after requests = session at h
  exact {
    compileSource := by
      rintro source file rfl
      simp only [answer, Compiler.respond, compileSource_eq_fresh h.options_eq]
    compileFile := by
      rintro path rfl
      simp only [answer, Compiler.respond, compileFile_eq_fresh h.options_eq]
    sameFiles_of_compile := session.sameFiles_of_compile
    nothingCompiled_iff := by
      rintro path rfl
      exact h.nothingCompiled_iff path
    written := fun path hreply ↦ h.written hvalid hreply
    written_of_writeAt := by
      rintro path compilation rfl hlast hpath hwritten
      obtain ⟨result, hresult, hdelivers⟩ := h.delivers hlast (some path)
      rw [hresult, hdelivers.eq_ok hpath hwritten]
    sameFiles_of_error := fun failure hreply ↦ h.sameFiles_of_error hreply
    carriageReturn_not_mem := by
      intro compilation hreply
      obtain ⟨source, file, hcompile⟩ := h.exists_compile_of_answer hreply
      exact carriageReturn_not_mem_text hvalid hcompile }

end Session

end

/-- A write that comes too early, a compilation that succeeds, and one that fails. -/
def interruption : List Request :=
  [.writeOutput none, .compileSource "PRINT \"a\"" "", .compileSource "PRINT" ""]

/-- After that, a write puts the program that has been compiled into the file. -/
theorem isFaithful_after_interruption :
    let session := (Session.start (.writingTo "p.c") FileStore.empty).after interruption
    (Options.writingTo "p.c").Valid ∧
      session.IsFaithful (.writingTo "p.c") (.writeOutput none) ∧
      (session.answer (.writeOutput none)).1 = .written (.ok "p.c") ∧
      (session.answer (.writeOutput none)).2.files.read "p.c" =
        .ok (Text.Utf8.encode letterProgram.text.toList) := by
  have hvalid : (Options.writingTo "p.c").Valid := by decide
  exact ⟨hvalid, Session.isFaithful_after _ hvalid _ _ _, by decide +kernel, by decide +kernel⟩

end TeenyBasic
