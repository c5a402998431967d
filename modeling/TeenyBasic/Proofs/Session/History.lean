import Mathlib.Control.Monad.Basic
import TeenyBasic.Proofs.Session.FileSystem

/-!
# The history of a compiler

A compiler answers a sequence of requests: to compile a text or a file, and to write what it has
compiled. All that it remembers from the past can be read off the requests and replies: the draft it
holds is the program of the last compilation that succeeded, with the path that a request to write
has given since then, or else with the destination of the options. A compilation that fails leaves
this as it is, and so do reading and writing that fail, except that a path given to a write is
remembered whether the write succeeds or not.

The main statement is `goesTo_destination_iff`: when a write without a path goes to the destination
of the options.
-/

namespace TeenyBasic

/-- What a compiler can be asked for. -/
inductive Request where
  | compileSource (source file : String)
  | compileFile (path : String)
  | writeOutput (path : Option String)
  deriving DecidableEq, Repr

/-- What a compiler replies. -/
inductive Reply where
  | compiled (result : Except Failure Compilation)
  | written (result : Except Failure String)
  deriving DecidableEq

/-- Requests with their replies, the latest first. -/
abbrev History := List (Request × Reply)

/-- The last compilation that succeeded. -/
def History.lastCompiled : History → Option Compilation
  | [] => none
  | (_, .compiled (.ok compilation)) :: _ => some compilation
  | _ :: earlier => lastCompiled earlier

/-- The last path given to a write since a compilation succeeded. -/
def History.lastGiven : History → Option String
  | [] => none
  | (_, .compiled (.ok _)) :: _ => none
  | (.writeOutput (some path), _) :: _ => some path
  | _ :: earlier => lastGiven earlier

/-- A compiler with the files it works on, and the requests that it has answered. -/
structure Session (φ : Type) where
  compiler : Compiler
  files : φ
  history : History

section

variable {φ : Type} [FileAccess (StateM φ)]

/-- The reply of a compiler to a request, with the compiler and the files it leaves. -/
def Compiler.respond (compiler : Compiler) (files : φ) : Request → Reply × Compiler × φ
  | .compileSource source file =>
    let result := compiler.compileSource source file
    (.compiled result.2, result.1, files)
  | .compileFile path =>
    let result := outcome (compiler.compileFile path) files
    (.compiled result.1.2, result.1.1, result.2)
  | .writeOutput path =>
    let result := outcome (compiler.writeOutput path) files
    (.written result.1.2, result.1.1, result.2)

namespace Session

def start (options : Options) (files : φ) : Session φ :=
  ⟨.fresh options, files, []⟩

/-- The reply to a request, and the session that it leaves. -/
def answer (session : Session φ) (request : Request) : Reply × Session φ :=
  let response := session.compiler.respond session.files request
  (response.1, ⟨response.2.1, response.2.2, (request, response.1) :: session.history⟩)

/-- The session after requests, in the order in which they are made. -/
def after (session : Session φ) (requests : List Request) : Session φ :=
  requests.foldl (fun session request ↦ (session.answer request).2) session

end Session

/-- The text of a source file, which has to exist. -/
def fetch (spelling : String) : StateM φ (Except Failure String) := do
  match ← requireSource spelling (Path.ofSpelling spelling) with
  | .error failure => return .error failure
  | .ok () => readSource (Path.ofSpelling spelling)

/-- A file is compiled by compiling its text. -/
theorem compileFile_eq (compiler : Compiler) (spelling : String) :
    (compiler.compileFile spelling : StateM φ (Compiler × Except Failure Compilation)) =
      fetch spelling >>= fun source ↦
        match source with
        | .error failure => pure (compiler, .error failure)
        | .ok source => pure (compiler.compileSource source spelling) := by
  unfold Compiler.compileFile fetch
  rw [bind_assoc]
  refine bind_congr fun found ↦ ?_
  cases found with
  | error failure => rfl
  | ok _ => rfl

/-- What a compiler gives for a file, and the compiler that is left, for each text fetched. -/
theorem outcome_compileFile (compiler : Compiler) (spelling : String) (files : φ) :
    outcome (compiler.compileFile spelling) files =
      (match (outcome (fetch spelling) files).1 with
        | .error failure => (compiler, .error failure)
        | .ok source => compiler.compileSource source spelling,
        (outcome (fetch spelling) files).2) := by
  rw [compileFile_eq, outcome_bind]
  cases (outcome (fetch spelling) files).1 <;> rfl

/-- What writing a text to a destination comes to. -/
inductive Delivers (files : φ) (text : String) :
    Option Path → Except Failure String → φ → Prop where
  | unset : Delivers files text none
      (.error (.diagnosed ⟨.unconfigured, none, none⟩)) files
  | null {path : Path} : holdsNull path.text = true →
      Delivers files text (some path) (.error .nullInPath) files
  | refused {path : Path} {fault : FileFault} {files' : φ} : holdsNull path.text = false →
      writeAt path.text (Text.Utf8.encode text.toList) files = (.error fault, files') →
      Delivers files text (some path)
        (.error (.diagnosed ⟨.unwritable path.text fault.reason, none, none⟩)) files'
  | done {path : Path} {files' : φ} : holdsNull path.text = false →
      writeAt path.text (Text.Utf8.encode text.toList) files = (.ok (), files') →
      Delivers files text (some path) (.ok path.text) files'

/-- The result of a draft that has been written: the path written to, or the failure. -/
def Draft.report (draft : Draft) (result : Except Failure String) : Except Failure String :=
  result.map fun _ ↦ (draft.destination.map Path.text).getD ""

theorem delivers_of_finalize (draft : Draft) (files : φ) :
    Delivers files draft.listing.output draft.destination
      (draft.report (outcome draft.finalize files).1) (outcome draft.finalize files).2 := by
  obtain ⟨listing, destination⟩ := draft
  cases destination with
  | none => exact .unset
  | some path =>
    cases hnull : holdsNull path.text with
    | true =>
      simp only [Draft.finalize, hnull, if_true]
      exact .null hnull
    | false =>
      simp only [Draft.finalize, hnull, Bool.false_eq_true, if_false, outcome_bind]
      cases hwrite : outcome (FileAccess.write path.text (Text.Utf8.encode
        listing.output.toList)) files with
      | mk answer files' =>
        cases answer with
        | error fault => exact .refused hnull hwrite
        | ok _ => exact .done hnull hwrite

/-- The draft with a path as its destination, if one is given. -/
def Draft.redirect (draft : Draft) (given : Option String) : Draft :=
  { draft with destination := (given.map Path.ofSpelling).or draft.destination }

theorem outcome_writeOutput_of_none {compiler : Compiler} (hdraft : compiler.draft = none)
    (given : Option String) (files : φ) :
    outcome (compiler.writeOutput given) files = ((compiler, .error .nothingCompiled), files) := by
  unfold Compiler.writeOutput
  rw [hdraft]
  rfl

theorem outcome_writeOutput {compiler : Compiler} {draft : Draft}
    (hdraft : compiler.draft = some draft) (given : Option String) (files : φ) :
    outcome (compiler.writeOutput given) files =
      (({ compiler with draft := some (draft.redirect given) },
        (draft.redirect given).report (outcome (draft.redirect given).finalize files).1),
        (outcome (draft.redirect given).finalize files).2) := by
  have hredirect : (⟨draft.listing, (given.map Path.ofSpelling).or draft.destination⟩ : Draft) =
      draft.redirect given := rfl
  unfold Compiler.writeOutput
  simp only [hdraft, hredirect, outcome_bind]
  cases (outcome (draft.redirect given).finalize files).1 <;> rfl

end

/-! ## What a compiler remembers -/

/-- Where a history leads a write without a path. -/
def History.destination (options : Options) (history : History) : Option Path :=
  (history.lastGiven.map Path.ofSpelling).or options.destination

theorem destination_written (options : Options) (given : Option String)
    (result : Except Failure String) (history : History) :
    History.destination options ((.writeOutput given, .written result) :: history) =
      (given.map Path.ofSpelling).or (history.destination options) := by
  cases given <;> rfl

/-- The draft that a history leaves to a compiler with options. -/
def History.draft (options : Options) (history : History) : Option Draft :=
  history.lastCompiled.map fun compilation ↦ ⟨compilation.listing, history.destination options⟩

/-- A compiler is where its history has led it: it has kept its options, it holds the draft that the
history leaves, and the last compilation that succeeded is one under these options. -/
structure Session.Recalls {φ : Type} (options : Options) (session : Session φ) : Prop where
  options_eq : session.compiler.options = options
  draft_eq : session.compiler.draft = session.history.draft options
  exists_compile : ∀ compilation, session.history.lastCompiled = some compilation →
    ∃ source file, options.compile source file = .ok compilation

namespace Session

variable {φ : Type} {options : Options} {session : Session φ}

theorem recalls_start (options : Options) (files : φ) : (start options files).Recalls options :=
  ⟨rfl, rfl, by simp [start, History.lastCompiled]⟩

theorem Recalls.draft_of_none (h : session.Recalls options)
    (hlast : session.history.lastCompiled = none) : session.compiler.draft = none := by
  rw [h.draft_eq, History.draft, hlast, Option.map_none]

theorem Recalls.draft_of_some (h : session.Recalls options) {compilation : Compilation}
    (hlast : session.history.lastCompiled = some compilation) :
    session.compiler.draft = some ⟨compilation.listing, session.history.destination options⟩ := by
  rw [h.draft_eq, History.draft, hlast, Option.map_some]

theorem Recalls.idle (h : session.Recalls options) {exchange : Request × Reply} (files : φ)
    (hcompiled : History.lastCompiled (exchange :: session.history) = session.history.lastCompiled)
    (hgiven : History.lastGiven (exchange :: session.history) = session.history.lastGiven) :
    Recalls options ⟨session.compiler, files, exchange :: session.history⟩ where
  options_eq := h.options_eq
  draft_eq := by
    rw [h.draft_eq, History.draft, History.draft, History.destination, History.destination,
      hcompiled, hgiven]
  exists_compile := by
    intro compilation hlast
    exact h.exists_compile compilation (hcompiled ▸ hlast)

theorem Recalls.compileSource (h : session.Recalls options) {request : Request}
    (hrequest : ∀ path, request ≠ .writeOutput path) (source file : String) (files : φ) :
    Recalls options ⟨(session.compiler.compileSource source file).1, files,
      (request, .compiled (session.compiler.compileSource source file).2) :: session.history⟩ := by
  unfold Compiler.compileSource
  rw [h.options_eq]
  cases hcompile : options.compile source file with
  | error fault =>
    apply h.idle files rfl
    cases request with
    | writeOutput path => exact absurd rfl (hrequest path)
    | compileSource source file => rfl
    | compileFile path => rfl
  | ok compilation =>
    have hdraft : some ⟨compilation.listing, options.destination⟩ =
        History.draft options ((request, .compiled (.ok compilation)) :: session.history) := by
      simp [History.draft, History.destination, History.lastCompiled, History.lastGiven]
    refine ⟨rfl, hdraft, ?_⟩
    intro last hlast
    obtain rfl : compilation = last := by simpa [History.lastCompiled] using hlast
    exact ⟨source, file, hcompile⟩

variable [FileAccess (StateM φ)]

/-- Every request keeps what a compiler recalls. -/
theorem Recalls.answer (h : session.Recalls options) (request : Request) :
    (session.answer request).2.Recalls options := by
  cases request with
  | compileSource source file => exact h.compileSource (by simp) source file session.files
  | compileFile path =>
    simp only [Session.answer, Compiler.respond, outcome_compileFile]
    cases (outcome (fetch path) session.files).1 with
    | error failure => exact h.idle _ rfl rfl
    | ok source => exact h.compileSource (by simp) source path _
  | writeOutput given =>
    simp only [Session.answer, Compiler.respond]
    cases hlast : session.history.lastCompiled with
    | none =>
      rw [outcome_writeOutput_of_none (h.draft_of_none hlast)]
      have hdraft : History.draft options ((.writeOutput given, .written (.error
          .nothingCompiled)) :: session.history) = none := by
        simp [History.draft, History.lastCompiled, hlast]
      exact ⟨h.options_eq, (h.draft_of_none hlast).trans hdraft.symm, h.exists_compile⟩
    | some compilation =>
      rw [outcome_writeOutput (h.draft_of_some hlast)]
      refine ⟨h.options_eq, ?_, h.exists_compile⟩
      simp only [History.draft, History.lastCompiled, hlast, Option.map_some, destination_written,
        Draft.redirect]

/-- A compiler is always where its history has led it. -/
theorem recalls_after (options : Options) (files : φ) (requests : List Request) :
    ((start options files).after requests).Recalls options := by
  suffices hkeep : ∀ session : Session φ, session.Recalls options →
      (session.after requests).Recalls options from hkeep _ (recalls_start options files)
  induction requests with
  | nil => exact fun session h ↦ h
  | cons request requests ih => exact fun session h ↦ ih _ (h.answer request)

/-- Once a compilation has succeeded, a write delivers its text to the path given to it, or else to
where the history leads. -/
theorem Recalls.delivers (h : session.Recalls options) {compilation : Compilation}
    (hlast : session.history.lastCompiled = some compilation) (given : Option String) :
    ∃ result, (session.answer (.writeOutput given)).1 = .written result ∧
      Delivers session.files compilation.text
        ((given.map Path.ofSpelling).or (session.history.destination options)) result
        (session.answer (.writeOutput given)).2.files := by
  have hdelivers := delivers_of_finalize (Draft.redirect ⟨compilation.listing,
    session.history.destination options⟩ given) session.files
  simp only [Session.answer, Compiler.respond, outcome_writeOutput (h.draft_of_some hlast)]
  exact ⟨_, rfl, hdelivers⟩

end Session

section

variable {φ : Type} [FileAccess (StateM φ)] [LawfulFileAccess φ]

/-- A write of a text goes to a destination: it gives back the path and has replaced the file there,
or the file system refuses it and it fails under that path. Without a destination it fails as
well. -/
def GoesTo (files : φ) (text : String) (reply : Reply) (files' : φ) : Option Path → Prop
  | none => reply = .written (.error (.diagnosed ⟨.unconfigured, none, none⟩))
  | some path =>
    (reply = .written (.ok path.text) ∧
      Replaces files path.text (Text.Utf8.encode text.toList) files') ∨
    ∃ fault, (writeAt path.text (Text.Utf8.encode text.toList) files).1 = .error fault ∧
      reply = .written (.error (.diagnosed ⟨.unwritable path.text fault.reason, none, none⟩))

/-- What is delivered to a target goes to the destinations with the same text, unless this holds a
null character. -/
theorem Delivers.goesTo_iff {files files' : φ} {text : String} {target : Option Path}
    {result : Except Failure String} (h : Delivers files text target result files')
    (destination : Option Path) :
    GoesTo files text (.written result) files' destination ↔
      (∀ path ∈ destination, holdsNull path.text = false) ∧
        target.map Path.text = destination.map Path.text := by
  cases h with
  | unset => cases destination <;> simp [GoesTo]
  | @null target hnull =>
    cases destination with
    | none => simp [GoesTo]
    | some path =>
      have hother (hpath : holdsNull path.text = false) : target.text ≠ path.text := by
        intro heq
        rw [heq, hpath] at hnull
        cases hnull
      simpa [GoesTo] using hother
  | @refused target fault _ hnull hwrite =>
    cases destination with
    | none => simp [GoesTo]
    | some path =>
      have hpath : target.text = path.text → holdsNull path.text = false := fun heq ↦ heq ▸ hnull
      have hsame : target.text = path.text → ∃ other,
          (writeAt path.text (Text.Utf8.encode text.toList) files).1 = .error other ∧
            fault.reason = other.reason := by
        intro heq
        rw [← heq, hwrite]
        exact ⟨fault, rfl, rfl⟩
      simpa [GoesTo, and_left_comm, and_iff_left_of_imp hsame] using hpath
  | @done target _ hnull hwrite =>
    cases destination with
    | none => simp [GoesTo]
    | some path =>
      have hpath : target.text = path.text → holdsNull path.text = false := fun heq ↦ heq ▸ hnull
      have hsame : target.text = path.text →
          Replaces files path.text (Text.Utf8.encode text.toList) files' :=
        fun heq ↦ heq ▸ replaces_of_writeAt hwrite
      simpa [GoesTo, and_iff_left_of_imp hsame] using hpath

/-- After a compilation has succeeded, a write without a path goes to the destination of the options
exactly when this holds no null character and is where the last path given since that compilation,
if there is one, leads as well. -/
theorem goesTo_destination_iff (options : Options) (files : φ) (requests : List Request)
    (compilation : Compilation)
    (hcompiled : ((Session.start options files).after requests).history.lastCompiled =
      some compilation) :
    let session := (Session.start options files).after requests
    let answer := session.answer (.writeOutput none)
    GoesTo session.files compilation.text answer.1 answer.2.files options.destination ↔
      (∀ path ∈ options.destination, holdsNull path.text = false) ∧
        ∀ given ∈ session.history.lastGiven,
          options.destination.map Path.text = some (Path.ofSpelling given).text := by
  intro session answer
  obtain ⟨result, hreply, hdelivers⟩ :=
    (Session.recalls_after options files requests).delivers hcompiled none
  rw [hreply, hdelivers.goesTo_iff, Option.map_none, Option.none_or, History.destination]
  refine and_congr_right fun _ ↦ ?_
  cases session.history.lastGiven with
  | none => simp
  | some given => simp [eq_comm]

end

/-- The standard options with a destination. -/
def Options.writingTo (spelling : String) : Options :=
  { Options.standard with destination := some (Path.ofSpelling spelling) }

/-- The translation of a program that prints the letter a. -/
def letterProgram : Compilation where
  file := ""
  listing := ⟨"#include <stdio.h>\nint main(int argc, char *argv[]) \x7b\n",
    "printf(\"a\\n\");\nreturn 0;\n\x7d\n"⟩
  variableNames := []
  labelNames := []
  tokenCount := 4

/-- A write to the destination under another spelling, between a compilation that succeeds and one
that fails. -/
def respelling : List Request :=
  [.compileSource "PRINT \"a\"" "", .writeOutput (some "./p.c"), .compileSource "PRINT" ""]

/-- After that, a write goes to the destination. -/
theorem goesTo_destination_iff_respelling :
    let session := (Session.start (.writingTo "p.c") FileStore.empty).after respelling
    let answer := session.answer (.writeOutput none)
    session.history.lastCompiled = some letterProgram ∧
      session.history.lastGiven = some "./p.c" ∧
      GoesTo session.files letterProgram.text answer.1 answer.2.files
        (some (Path.ofSpelling "p.c")) := by
  have hcompiled : ((Session.start (.writingTo "p.c") FileStore.empty).after
      respelling).history.lastCompiled = some letterProgram := by
    decide +kernel
  have hgiven : ((Session.start (.writingTo "p.c") FileStore.empty).after
      respelling).history.lastGiven = some "./p.c" := by
    decide +kernel
  have hnull : ∀ path ∈ (Options.writingTo "p.c").destination, holdsNull path.text = false := by
    decide +kernel
  have hsame : (Options.writingTo "p.c").destination.map Path.text =
      some (Path.ofSpelling "./p.c").text := by
    decide +kernel
  have hiff := goesTo_destination_iff (.writingTo "p.c") FileStore.empty respelling letterProgram
    hcompiled
  refine ⟨hcompiled, hgiven, hiff.mpr ⟨hnull, ?_⟩⟩
  rw [hgiven]
  rintro given ⟨⟩
  exact hsame

/-- A path given to one write decides where the next one goes. -/
theorem not_goesTo_destination_of_given :
    let options := Options.writingTo "p.c"
    let session := (Session.start options FileStore.empty).after
      [.compileSource "PRINT \"a\"" "", .writeOutput (some "other.c")]
    let answer := session.answer (.writeOutput none)
    ∃ compilation, session.history.lastCompiled = some compilation ∧
      answer.1 = .written (.ok "other.c") ∧
      ¬ GoesTo session.files compilation.text answer.1 answer.2.files options.destination := by
  intro options session answer
  have hcompiled : session.history.lastCompiled.isSome = true := by decide +kernel
  have hreply : answer.1 = .written (.ok "other.c") := by decide +kernel
  obtain ⟨compilation, hcompilation⟩ := Option.isSome_iff_exists.mp hcompiled
  refine ⟨compilation, hcompilation, hreply, ?_⟩
  rw [hreply]
  rintro (⟨hpath, _⟩ | ⟨fault, _, hrefused⟩)
  · revert hpath
    decide
  · simp at hrefused

end TeenyBasic
