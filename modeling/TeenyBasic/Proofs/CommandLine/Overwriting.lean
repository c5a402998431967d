import TeenyBasic.Proofs.CommandLine.Outcome
import TeenyBasic.Proofs.Lexing.Concatenation
import TeenyBasic.Proofs.Session.LineEnding
import TeenyBasic.Proofs.Session.Suffix

/-!
# Programs in the place of their sources

A run without a path for the output writes the program next to the source file, under the name of
the source file with another suffix. If the source file has that suffix already, the two are one
file, and the program takes the place of the source. In all other cases the source file stays as
it is: another suffix leads to another place, and a run that writes nothing leaves all files alone.

That the program takes the place of the source shows in the bytes of the file, since no program is
its own source: the second line of a program cannot be divided into tokens.

The main statement is `readAt_source_iff_of_run`.
-/

namespace TeenyBasic

open Source

/-- A text with the prologue in front cannot be divided into tokens: its first line is a comment,
and the bracket in the second one starts no token. -/
theorem fault_stream_prologue_ne_none (file : String) (lines : List String) :
    (Cursor.start file (closedLines (Generate.prologue ++ lines))).stream.fault ≠ none := by
  let front := "#include <stdio.h>\nint main(int argc, char *argv[]) \x7b"
  have hfault : (Cursor.stream (Cursor.start "" front)).fault.map Diagnostic.cause ≠ none := by
    decide +kernel
  have hanywhere := (Cursor.stream_of_rest_eq (d := Cursor.start file front)
    (c := Cursor.start "" front) rfl).2
  have hfront : (Cursor.stream (Cursor.start file front)).fault ≠ none := by
    intro hnone
    rw [hnone] at hanywhere
    exact hfault hanywhere.symm
  have hprologue : closedLines Generate.prologue = front ++ "\n" := by decide +kernel
  rw [closedLines_append, hprologue, Cursor.start_append]
  exact (Cursor.isClosed_start file front).fault_stream_extend_ne_none hfront _

theorem fault_stream_text_ne_none {options : Options} {source file : String}
    {compilation : Compilation} (h : options.compile source file = .ok compilation)
    (file' : String) : (Cursor.stream (Cursor.start file' compilation.text)).fault ≠ none := by
  obtain ⟨_, program, scope, _, _, _, _, rfl⟩ := (compile_eq_ok_iff _ _ _ _).mp h
  rw [text_translation, List.append_assoc, List.append_assoc]
  exact fault_stream_prologue_ne_none file' _

/-- No source file holds the program that it is compiled to. -/
theorem encode_text_ne {bytes : List UInt8} {text : List Char} {file : String}
    {compilation : Compilation} (hdecode : Text.Utf8.decode bytes = .ok text)
    (h : Options.standard.compile (.ofList (Text.unifyLineEndings text)) file = .ok compilation) :
    Text.Utf8.encode compilation.text.toList ≠ bytes := by
  rintro rfl
  rw [Text.Utf8.decode_encode] at hdecode
  cases hdecode
  have hreturn := carriageReturn_not_mem_text Options.standard_valid h
  rw [Text.unifyLineEndings_of_not_mem _ hreturn, String.ofList_toList] at h
  have hfault := ((compile_eq_ok_iff _ _ _ _).mp h).1
  exact fault_stream_text_ne_none h file hfault

namespace CommandLine

section

variable {φ : Type} [FileAccess (StateM φ)] [SteadyFileAccess φ]

/-- The program that a job writes when its source file has the given bytes. -/
def Job.product (job : Job) (bytes : List UInt8) : Option Compilation :=
  match Text.Utf8.decode bytes with
  | .error _ => none
  | .ok text =>
    if job.tokens then none
    else (Options.standard.compile (.ofList (Text.unifyLineEndings text))
      job.source.text).toOption

/-- The program that a run writes when its source file has the given bytes. There is none if the
arguments ask for information, if something stands behind the path of the source file, or if that
path cannot be looked up. -/
def Arguments.product (arguments : Arguments) (source : String) (bytes : List UInt8) :
    Option Compilation :=
  if arguments.notice = none ∧ arguments.positional = [source] ∧ holdsNull source = false then
    (arguments.jobOn source).product bytes
  else none

variable {arguments : Arguments} {source : String} {bytes : List UInt8} {files : φ} {job : Job}

omit [SteadyFileAccess φ] in
/-- A job changes no files but by the write of its program. -/
theorem files_run (hread : readAt job.source.text files = (.ok bytes, files))
    (hnull : holdsNull job.destination.text = false) :
    (outcome job.run files).2 = match job.product bytes with
      | none => files
      | some compilation =>
        (writeAt job.destination.text (Text.Utf8.encode compilation.text.toList) files).2 := by
  rw [outcome_run, outcome_readSource hread, Job.product]
  cases Text.Utf8.decode bytes with
  | error fault => rfl
  | ok text =>
    dsimp only
    cases job.tokens with
    | true => rfl
    | false =>
      simp only [Bool.false_eq_true, if_false]
      cases hcompile : Options.standard.compile (.ofList (Text.unifyLineEndings text))
          job.source.text with
      | error fault =>
        obtain ⟨result, hresult, -⟩ := compile_of_error files hcompile
        rw [hresult]
        rfl
      | ok compilation =>
        obtain ⟨result, hresult, -⟩ := compile_of_ok files hcompile hnull
        rw [hresult]
        rfl

/-- Arguments that name a file, and no path for the output, are refused if something stands behind
the path of the file or if that path cannot be looked up. -/
theorem outcome_job_of_head (houtput : arguments.output = none)
    (hhead : arguments.positional.head? = some source)
    (hfile : (look source files).1 = .ok .file)
    (hrefused : ¬(arguments.positional = [source] ∧ holdsNull source = false)) :
    ∃ refusal, outcome arguments.job files = (.error refusal, files) := by
  obtain ⟨extra, hpositional⟩ := List.head?_eq_some_iff.mp hhead
  unfold Arguments.job
  rw [houtput, hpositional, outcome_bind]
  dsimp only [checkOutput]
  cases hnull : holdsNull source with
  | true =>
    refine ⟨.nullInPath, ?_⟩
    simp only [checkSource, hnull, if_true]
    rfl
  | false =>
    have hextra : extra ≠ [] := by
      rintro rfl
      exact hrefused ⟨hpositional, hnull⟩
    refine ⟨.usage (.extraArguments extra), ?_⟩
    change outcome (checkSource source >>= _) files = _
    rw [outcome_bind, outcome_checkSource hnull hfile]
    simp only [List.isEmpty_iff, hextra, if_false]
    rfl

/-- A run without a path for the output changes no files but by the write of its program. -/
theorem files_of_run {words : List String} (hwords : Arguments.ofWords words = .ok arguments)
    (houtput : arguments.output = none) (hhead : arguments.positional.head? = some source)
    (hfile : (look source files).1 = .ok .file)
    (hread : readAt (Path.ofSpelling source).text files = (.ok bytes, files)) :
    (outcome (run words) files).2 = match arguments.product source bytes with
      | none => files
      | some compilation => (writeAt ((Path.ofSpelling source).withSuffix programSuffix).text
          (Text.Utf8.encode compilation.text.toList) files).2 := by
  unfold Arguments.product
  by_cases hnotice : arguments.notice = none
  · by_cases hsingle : arguments.positional = [source] ∧ holdsNull source = false
    · have haccepted : arguments.AreAccepted source files := by
        refine ⟨hnotice, hsingle.1, hsingle.2, hfile, ?_, ?_⟩ <;> simp [houtput]
      have hdestination : (arguments.jobOn source).destination =
          (Path.ofSpelling source).withSuffix programSuffix := by
        simp [Arguments.jobOn, houtput]
      have hnull := holdsNull_destination hsingle.2 haccepted.output_null
      rw [haccepted.outcome_run hwords, if_pos ⟨hnotice, hsingle⟩]
      exact hdestination ▸ files_run hread hnull
    · obtain ⟨refusal, hjob⟩ := outcome_job_of_head houtput hhead hfile hsingle
      rw [if_neg fun h ↦ hsingle h.2]
      unfold run
      rw [hwords]
      dsimp only
      rw [hnotice]
      dsimp only
      rw [outcome_bind, hjob]
      cases refusal <;> rfl
  · obtain ⟨notice, hsome⟩ := Option.ne_none_iff_exists'.mp hnotice
    rw [if_neg fun h ↦ hnotice h.1]
    unfold run
    rw [hwords]
    dsimp only
    rw [hsome]
    rfl

end

theorem isSuffix_programSuffix : Path.IsSuffix programSuffix.toList ['c'] :=
  ⟨rfl, by simp, by decide, by decide⟩

theorem Job.exists_compile_of_product {job : Job} {bytes : List UInt8} {compilation : Compilation}
    (h : job.product bytes = some compilation) : ∃ text, Text.Utf8.decode bytes = .ok text ∧
      Options.standard.compile (.ofList (Text.unifyLineEndings text)) job.source.text =
        .ok compilation := by
  unfold Job.product at h
  cases hdecode : Text.Utf8.decode bytes with
  | error fault =>
    rw [hdecode] at h
    cases h
  | ok text =>
    rw [hdecode] at h
    dsimp only at h
    split at h
    · cases h
    · cases hcompile : Options.standard.compile (.ofList (Text.unifyLineEndings text))
          job.source.text with
      | error fault =>
        rw [hcompile] at h
        cases h
      | ok compilation' =>
        rw [hcompile] at h
        cases h
        exact ⟨text, rfl, hcompile⟩

theorem encode_product_ne {arguments : Arguments} {source : String} {bytes : List UInt8}
    {compilation : Compilation} (h : arguments.product source bytes = some compilation) :
    Text.Utf8.encode compilation.text.toList ≠ bytes := by
  unfold Arguments.product at h
  split at h
  · obtain ⟨text, hdecode, hcompile⟩ := Job.exists_compile_of_product h
    exact encode_text_ne hdecode hcompile
  · cases h

/-- A run without a path for the output leaves the source file as it is, unless the name of the
source file ends with the suffix of programs and a program is written: then it is written over the
source. Arguments that are wrong change nothing. -/
theorem readAt_source_iff_of_run (words : List String) (store : FileStore) :
    (∀ fault, Arguments.ofWords words = .error fault → (outcome (run words) store).2 = store) ∧
    ∀ arguments source, Arguments.ofWords words = .ok arguments → arguments.output = none →
      arguments.positional.head? = some source → (look source store).1 = .ok .file →
      (store.locate ((Path.ofSpelling source).withSuffix programSuffix).text =
          store.locate source ↔ (Path.ofSpelling source).EndsWith programSuffix) ∧
      ∃ bytes, (readAt source store).1 = .ok bytes ∧
        ((readAt source (outcome (run words) store).2).1 = .ok bytes ↔
          ¬((Path.ofSpelling source).EndsWith programSuffix ∧
            ∃ compilation, arguments.product source bytes = some compilation)) := by
  constructor
  · intro fault hwords
    unfold run
    rw [hwords]
    rfl
  intro arguments source hwords houtput hhead hfile
  obtain ⟨bytes, hread, hrespelled⟩ := exists_readAt_of_look hfile
  obtain ⟨place, hlocate, hentry⟩ := FileStore.exists_locate_of_read hread
  have hplace := FileStore.locate_withSuffix_eq_iff isSuffix_programSuffix hlocate
    (by simp [hentry])
  rw [hlocate]
  refine ⟨hplace, bytes, hread, ?_⟩
  rw [files_of_run hwords houtput hhead hfile hrespelled]
  cases hproduct : arguments.product source bytes with
  | none => simpa using hread
  | some compilation =>
    refine (FileStore.read_writeAt_iff _ hlocate hentry (encode_product_ne hproduct)).trans ?_
    simp [hplace]

def letterSource : String := "PRINT \"a\"\n"

/-- A name that is nothing but the suffix does not end with it: the program is written next to the
source, which stays. -/
theorem readAt_source_iff_of_run_hidden :
    let files := (outcome (run [".c"]) (FileStore.single ".c" letterSource)).2
    (readAt ".c.c" files).1 = .ok (Text.Utf8.encode letterProgram.text.toList) ∧
      (readAt ".c" files).1 = .ok (Text.Utf8.encode letterSource.toList) := by
  have hwords : Arguments.ofWords [".c"] = .ok ⟨[".c"], none, false, false, none⟩ := by
    decide +kernel
  have hbytes : (readAt ".c" (FileStore.single ".c" letterSource)).1 =
      .ok (Text.Utf8.encode letterSource.toList) := by
    decide +kernel
  have hname : (Path.ofSpelling ".c").parts.getLast? = some ".c" := by decide +kernel
  obtain ⟨-, bytes, hread, hiff⟩ :=
    (readAt_source_iff_of_run [".c"] (FileStore.single ".c" letterSource)).2 _ ".c" hwords rfl rfl
      (by decide +kernel)
  cases hbytes.symm.trans hread
  refine ⟨by decide +kernel, hiff.mpr ?_⟩
  rintro ⟨⟨name, front, hlast, hfront, hends⟩, -⟩
  cases hname.symm.trans hlast
  exact hfront (List.self_eq_append_left.mp hends)

/-- A name that ends with the suffix: the program is written over the source. -/
theorem readAt_source_of_programSuffix :
    let files := FileStore.single "prog.c" letterSource
    Arguments.ofWords ["prog.c"] = .ok ⟨["prog.c"], none, false, false, none⟩ ∧
      (look "prog.c" files).1 = .ok .file ∧
      (readAt "prog.c" files).1 = .ok (Text.Utf8.encode letterSource.toList) ∧
      (readAt "prog.c" (outcome (run ["prog.c"]) files).2).1 =
        .ok (Text.Utf8.encode letterProgram.text.toList) ∧
      Text.Utf8.encode letterProgram.text.toList ≠ Text.Utf8.encode letterSource.toList := by
  decide +kernel

end CommandLine

end TeenyBasic
