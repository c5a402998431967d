import TeenyBasic.CommandLine.Run
import TeenyBasic.Proofs.Generation.Report
import TeenyBasic.Proofs.Session.Fidelity
import TeenyBasic.Proofs.Session.Respelling

/-!
# What the command comes to

The exit code of the command and the one file that it may change follow from its arguments, the
bytes of the source file and the answer of the file system to a write. Whatever it is called with,
the command does not end with an internal error: a source file that has been seen can be read, a
fault of a compilation is never taken for one of the output, and a path that is written to holds no
null character, since none of the words does.

The main statement is `endsWith_of_run`.
-/

namespace TeenyBasic

theorem Kind.all_isGraphic_tag (kind : Kind) : kind.tag.toList.all Text.isGraphic = true := by
  cases kind with
  | keyword word => cases word <;> decide +kernel
  | operator sign => cases sign <;> decide +kernel
  | comparison sign => cases sign <;> decide +kernel
  | _ => decide +kernel

theorem Token.isPrintable_of_mem_listing (token : Token) :
    ∀ c ∈ token.listing.toList, Text.Printable.isPrintable c = true := by
  have hlisting : token.listing.toList = "Token(".toList ++ (token.kind.tag.toList ++
      (", ".toList ++ ((Text.quoted token.spelling).toList ++ (", ".toList ++
        (token.location.line.repr.toList ++ (":".toList ++
          (token.location.column.repr.toList ++ ")".toList))))))) := by
    simp [Token.listing, toString]
  have hfixed : ∀ text ∈ ["Token(", ", ", ":", ")"], ∀ c ∈ text.toList,
      Text.Printable.isPrintable c = true := by
    intro text htext
    have hall : (["Token(", ", ", ":", ")"].all (·.toList.all Text.isGraphic)) = true := by
      decide +kernel
    exact Text.isPrintable_of_all_isGraphic (List.all_eq_true.mp hall text htext)
  rw [hlisting]
  simp only [List.forall_mem_append]
  exact ⟨hfixed _ (by simp), Text.isPrintable_of_all_isGraphic token.kind.all_isGraphic_tag,
    hfixed _ (by simp), Text.isPrintable_of_mem_quoted token.spelling, hfixed _ (by simp),
    Text.isPrintable_of_mem_repr token.location.line, hfixed _ (by simp),
    Text.isPrintable_of_mem_repr token.location.column, hfixed _ (by simp)⟩

namespace CommandLine

theorem echo_of_isPrintable {line : String}
    (h : ∀ c ∈ line.toList, Text.Printable.isPrintable c = true) : echo line = line ++ "\n" := by
  have hescape : Text.Terminal.escape ∉ line.toList := by
    intro hmem
    have hprintable := h _ hmem
    revert hprintable
    decide +kernel
  rw [echo, Text.Terminal.plain, Text.Terminal.plainAfter_of_not_mem _ hescape,
    String.ofList_toList]

/-- Each token is listed on a line of its own. -/
theorem lines_listing (tokens : List Token) :
    Text.lines (String.join (tokens.map fun token ↦ echo token.listing)).toList =
      tokens.map (·.listing.toList) ++ [[]] := by
  induction tokens with
  | nil => rfl
  | cons token tokens ih =>
    have hprintable := token.isPrintable_of_mem_listing
    have hline : Text.lines token.listing.toList = [token.listing.toList] := by
      have hsingle : Text.lines ("\n".intercalate [token.listing]).toList =
          [token.listing].map String.toList :=
        Text.lines_intercalate (by simp)
          (by simpa using lineFeed_not_mem_of_isPrintable hprintable)
      simpa using hsingle
    have hjoin : (String.join ((token :: tokens).map fun token ↦ echo token.listing)).toList =
        token.listing.toList ++
          '\n' :: (String.join (tokens.map fun token ↦ echo token.listing)).toList := by
      simp [echo_of_isPrintable hprintable]
    rw [hjoin, Text.lines_append_lineFeed, hline, ih]
    rfl

theorem family_of_compile {options : Options} {source file : String} {fault : Diagnostic}
    (h : options.compile source file = .error fault) : fault.cause.family ≠ .output := by
  obtain ⟨_, _, _, _, _, hshown, _⟩ := isFaithful_of_compile h
  cases hcause : fault.cause with
  | unconfigured =>
    rw [hcause] at hshown
    exact absurd hshown id
  | unwritable path reason =>
    rw [hcause] at hshown
    exact absurd hshown id
  | stated family text hint =>
    rw [hcause] at hshown
    exact absurd hshown id
  | _ => simp [Cause.family]

theorem family_of_stream {cursor : Cursor} {fault : Diagnostic}
    (h : cursor.stream.fault = some fault) : fault.cause.family = .lexical := by
  fun_induction Cursor.stream cursor with
  | case1 cursor first stop hnext =>
    cases h
    exact Cursor.family_of_next hnext
  | case2 cursor token rest hnext hkind => cases h
  | case3 cursor token rest hnext hkind later ih => exact ih h

theorem exit_of_diagnosed {fault : Diagnostic} (h : fault.cause.family ≠ .output) :
    (Trouble.diagnosed fault).exit = .compileError :=
  if_neg h

theorem message_of_diagnosed {fault : Diagnostic} (h : fault.cause.family ≠ .output) :
    (Trouble.diagnosed fault).message = fault.report :=
  if_neg h

/-- The work on a source file that arguments ask for. -/
def Arguments.jobOn (arguments : Arguments) (source : String) : Job where
  source := Path.ofSpelling source
  destination := (arguments.output.map Path.ofSpelling).getD
    ((Path.ofSpelling source).withSuffix programSuffix)
  tokens := arguments.tokens
  verbose := arguments.verbose

theorem holdsNull_destination {arguments : Arguments} {source : String}
    (hsource : holdsNull source = false)
    (houtput : ∀ path, arguments.output = some path → holdsNull path = false) :
    holdsNull (arguments.jobOn source).destination.text = false := by
  unfold Arguments.jobOn
  cases hgiven : arguments.output with
  | none => exact holdsNull_withSuffix hsource (by decide)
  | some path => exact holdsNull_ofSpelling (houtput path hgiven)

section

variable {φ : Type} [FileAccess (StateM φ)]

theorem holdsNull_of_checkOutput {output : Option String} {files : φ}
    (h : (outcome (checkOutput output) files).1 = .ok ()) :
    ∀ path, output = some path → holdsNull path = false := by
  intro path hpath
  subst hpath
  cases hnull : holdsNull path with
  | false => rfl
  | true =>
    simp only [checkOutput, hnull, if_true] at h
    cases h

theorem holdsNull_of_checkSource {source : String} {files : φ}
    (h : (outcome (checkSource source) files).1 = .ok ()) : holdsNull source = false := by
  cases hnull : holdsNull source with
  | false => rfl
  | true =>
    simp only [checkSource, hnull, if_true] at h
    cases h

/-- Whatever arguments ask for is work on a source file, written to a path without null
characters. -/
theorem holdsNull_of_job {arguments : Arguments} {job : Job} {files : φ}
    (h : (outcome arguments.job files).1 = .ok job) :
    holdsNull job.destination.text = false := by
  unfold Arguments.job at h
  rw [outcome_bind] at h
  cases houtput : (outcome (checkOutput arguments.output) files).1 with
  | error refusal =>
    rw [houtput] at h
    cases h
  | ok _ =>
    rw [houtput] at h
    dsimp only at h
    cases hpositional : arguments.positional with
    | nil =>
      rw [hpositional] at h
      cases h
    | cons source extra =>
      rw [hpositional] at h
      dsimp only at h
      rw [outcome_bind] at h
      cases hsource : (outcome (checkSource source)
          (outcome (checkOutput arguments.output) files).2).1 with
      | error refusal =>
        rw [hsource] at h
        cases h
      | ok _ =>
        rw [hsource] at h
        dsimp only at h
        split at h
        · cases h
          exact holdsNull_destination (holdsNull_of_checkSource hsource)
            (holdsNull_of_checkOutput houtput)
        · cases h

variable {job : Job} {source : String} {files files' : φ}

theorem log_append (job : Job) (a b : List String) :
    job.log (a ++ b) = job.log a ++ job.log b := by
  unfold Job.log
  split <;> simp

theorem outcome_finalize {listing : Listing} {path : Path} (hnull : holdsNull path.text = false) :
    outcome (Draft.finalize ⟨listing, some path⟩) files =
      match writeAt path.text (Text.Utf8.encode listing.output.toList) files with
      | (.ok (), files') => (.ok listing.output, files')
      | (.error fault, files') =>
        (.error (.diagnosed ⟨.unwritable path.text fault.reason, none, none⟩), files') := by
  simp only [Draft.finalize, hnull, Bool.false_eq_true, if_false, outcome_bind]
  change _ = match outcome (FileAccess.write path.text (Text.Utf8.encode listing.output.toList))
    files with | (.ok (), files') => _ | (.error fault, files') => _
  cases outcome (FileAccess.write path.text (Text.Utf8.encode listing.output.toList)) files with
  | mk answer files' => cases answer <;> rfl

/-- The line that a verbose run starts a compilation with. -/
def Job.greeting (job : Job) : String :=
  job.tell [s!"Compiling {job.source.text}..."]

/-- The note that a run starts with. -/
def Job.opening (job : Job) : String :=
  s!"Translating {job.source.text} -> {job.destination.text}"

/-- Where the program is to be written makes no difference to its compilation. -/
theorem compile_eq (job : Job) (source : String) : (job.compile source : StateM φ Result) =
    match (Options.standard.attempt source job.source.text).outcome with
    | .error fault => pure ((Trouble.result (.diagnosed fault) job.verbose).after job.greeting
        (job.log (Options.standard.attempt source job.source.text).notes))
    | .ok compilation => Draft.finalize ⟨compilation.listing, some job.destination⟩ >>= fun
      | .error failure =>
        pure (((Trouble.ofFailure failure).result job.verbose).after job.greeting
          (job.log (Options.standard.attempt source job.source.text).notes))
      | .ok text => pure ⟨.success,
          job.greeting ++ job.tell (job.account compilation) ++
            echo s!"Compiled {job.source.text} -> {job.destination.text}",
          job.log (Options.standard.attempt source job.source.text).notes ++
            job.log [s!"Wrote {text.length} bytes to {job.destination.text}"]⟩ :=
  rfl

/-- A source text with a fault is reported. -/
theorem compile_of_error (files : φ) {fault : Diagnostic}
    (h : Options.standard.compile source job.source.text = .error fault) :
    ∃ result, outcome (job.compile source) files = (result, files) ∧
      result.exit = .compileError ∧
      result.stderr = job.log (Options.standard.attempt source job.source.text).notes ++
        echo fault.report := by
  have hfamily := family_of_compile h
  have hattempt : (Options.standard.attempt source job.source.text).outcome = .error fault := h
  rw [compile_eq, hattempt]
  refine ⟨_, rfl, exit_of_diagnosed hfamily, ?_⟩
  simp [Result.after, Trouble.result, Trouble.trace, message_of_diagnosed hfamily]

/-- A program is written, or the file system refuses to write it. -/
theorem compile_of_ok (files : φ) {compilation : Compilation}
    (h : Options.standard.compile source job.source.text = .ok compilation)
    (hnull : holdsNull job.destination.text = false) :
    ∃ result, outcome (job.compile source) files = (result, (writeAt job.destination.text
        (Text.Utf8.encode compilation.text.toList) files).2) ∧
      result.exit = match (writeAt job.destination.text
        (Text.Utf8.encode compilation.text.toList) files).1 with
        | .ok () => .success
        | .error _ => .outputError := by
  have hattempt : (Options.standard.attempt source job.source.text).outcome = .ok compilation := h
  have hfinalize : outcome (Draft.finalize ⟨compilation.listing, some job.destination⟩) files =
      match writeAt job.destination.text (Text.Utf8.encode compilation.text.toList) files with
      | (.ok (), files') => (.ok compilation.text, files')
      | (.error fault, files') => (.error (.diagnosed
          ⟨.unwritable job.destination.text fault.reason, none, none⟩), files') :=
    outcome_finalize hnull
  rw [compile_eq, hattempt]
  dsimp only
  rw [outcome_bind, hfinalize]
  cases writeAt job.destination.text (Text.Utf8.encode compilation.text.toList) files with
  | mk answer files' =>
    cases answer with
    | ok _ => exact ⟨_, rfl, rfl⟩
    | error fault => exact ⟨_, rfl, rfl⟩

theorem exit_compile (hnull : holdsNull job.destination.text = false) :
    (outcome (job.compile source) files).1.exit ≠ .internalError := by
  cases hcompile : Options.standard.compile source job.source.text with
  | error fault =>
    obtain ⟨result, hresult, hexit, -⟩ := compile_of_error files hcompile
    rw [hresult, hexit]
    simp
  | ok compilation =>
    obtain ⟨result, hresult, hexit⟩ := compile_of_ok files hcompile hnull
    rw [hresult, hexit]
    split <;> simp

theorem stdout_listTokens (job : Job) (source : String) :
    (job.listTokens source).stdout =
      String.join ((Cursor.start job.source.text source).stream.tokens.map fun token ↦
        echo token.listing) := by
  unfold Job.listTokens
  dsimp only
  split
  · rfl
  · simp [Result.after, Trouble.result]

theorem exit_listTokens (job : Job) (source : String) :
    (job.listTokens source).exit =
      if (Cursor.start job.source.text source).stream.fault.isNone then .success
      else .compileError := by
  unfold Job.listTokens
  dsimp only
  cases hfault : (Cursor.start job.source.text source).stream.fault with
  | none => rfl
  | some fault =>
    have hfamily : fault.cause.family ≠ .output := by simp [family_of_stream hfault]
    exact exit_of_diagnosed hfamily

/-- A source file is read as far as its bytes are well-formed text. -/
theorem outcome_readSource {path : Path} {bytes : List UInt8}
    (h : readAt path.text files = (.ok bytes, files')) :
    outcome (readSource path) files = match Text.Utf8.decode bytes with
      | .error fault => (.error (.undecodable fault), files')
      | .ok text => (.ok (String.ofList (Text.unifyLineEndings text)), files') := by
  have hread : outcome (FileAccess.read path.text) files = (.ok bytes, files') := h
  unfold readSource
  rw [outcome_bind, hread]
  dsimp only
  cases Text.Utf8.decode bytes <;> rfl

theorem exit_of_readSource {path : Path} {failure : Failure}
    (h : (outcome (readSource path) files).1 = .error failure) :
    (Trouble.ofFailure failure).exit = .invalidArguments := by
  cases hread : readAt path.text files with
  | mk answer files' =>
    cases answer with
    | ok bytes =>
      rw [outcome_readSource hread] at h
      split at h
      · cases h
        rfl
      · cases h
    | error fault =>
      have hanswer : outcome (FileAccess.read path.text) files = (.error fault, files') := hread
      unfold readSource at h
      rw [outcome_bind, hanswer] at h
      cases h
      rfl

/-- The result of a run, from what reading the source file and compiling its text come to. -/
theorem outcome_run (job : Job) (files : φ) :
    outcome job.run files = match outcome (readSource job.source) files with
      | (.error failure, files') =>
        (((Trouble.ofFailure failure).result job.verbose).after "" (job.log [job.opening]), files')
      | (.ok source, files') =>
        if job.tokens then ((job.listTokens source).after "" (job.log [job.opening]), files')
        else ((outcome (job.compile source) files').1.after "" (job.log [job.opening]),
          (outcome (job.compile source) files').2) := by
  unfold Job.run
  rw [outcome_bind]
  cases outcome (readSource job.source) files with
  | mk answer files' =>
    cases answer with
    | error failure => rfl
    | ok source =>
      dsimp only
      cases job.tokens with
      | true => rfl
      | false =>
        simp only [Bool.false_eq_true, if_false]
        rw [outcome_bind]
        rfl

@[simp] theorem Result.exit_after (result : Result) (stdout stderr : String) :
    (result.after stdout stderr).exit = result.exit :=
  rfl

theorem exit_run (hnull : holdsNull job.destination.text = false) :
    (outcome job.run files).1.exit ≠ .internalError := by
  rw [outcome_run]
  cases hread : outcome (readSource job.source) files with
  | mk answer files' =>
    cases answer with
    | error failure =>
      have hexit : (Trouble.ofFailure failure).exit = .invalidArguments :=
        exit_of_readSource (congrArg Prod.fst hread)
      simp [Trouble.result, hexit]
    | ok source =>
      dsimp only
      split
      · rw [Result.exit_after, exit_listTokens]
        split <;> simp
      · rw [Result.exit_after]
        exact exit_compile hnull

/-- The command does not end with an internal error. -/
theorem exit_of_run {words : List String} {result : Result}
    (h : (outcome (run words) files).1 = .ok result) : result.exit ≠ .internalError := by
  unfold run at h
  cases hwords : Arguments.ofWords words with
  | error fault =>
    rw [hwords] at h
    cases h
    simp [UsageFault.result]
  | ok arguments =>
    rw [hwords] at h
    dsimp only at h
    cases hnotice : arguments.notice with
    | some notice =>
      rw [hnotice] at h
      cases h
      cases notice <;> simp [Notice.result]
    | none =>
      rw [hnotice] at h
      dsimp only at h
      rw [outcome_bind] at h
      cases hjob : (outcome arguments.job files).1 with
      | error refusal =>
        rw [hjob] at h
        cases refusal with
        | usage fault =>
          cases h
          simp [UsageFault.result]
        | nullInPath => cases h
      | ok job =>
        rw [hjob] at h
        dsimp only at h
        rw [outcome_bind] at h
        cases h
        exact exit_run (holdsNull_of_job hjob)

end

/-! ## Accepted arguments -/

section

variable {φ : Type} [FileAccess (StateM φ)] [SteadyFileAccess φ]

/-- Arguments that ask for work on one source file, which exists, and that give no directory for
the output. -/
structure Arguments.AreAccepted (arguments : Arguments) (source : String) (files : φ) : Prop where
  notice : arguments.notice = none
  positional : arguments.positional = [source]
  source_null : holdsNull source = false
  source_file : (look source files).1 = .ok .file
  output_null : ∀ path, arguments.output = some path → holdsNull path = false
  output_file : ∀ path, arguments.output = some path → (look path files).1 ≠ .ok .directory

variable {arguments : Arguments} {source : String} {files files' : φ}

omit [SteadyFileAccess φ] in
theorem outcome_status_eq_look (path : String) (files : φ) :
    outcome (FileAccess.status path) files = look path files :=
  rfl

theorem Arguments.AreAccepted.outcome_checkOutput (h : arguments.AreAccepted source files) :
    outcome (checkOutput arguments.output) files = (.ok (), files) := by
  cases houtput : arguments.output with
  | none => rfl
  | some path =>
    have hdirectory := h.output_file path houtput
    have hfiles := SteadyFileAccess.look_snd path files
    simp only [checkOutput, h.output_null path houtput, Bool.false_eq_true, if_false, outcome_bind]
    rw [outcome_status_eq_look, hfiles]
    cases hlook : (look path files).1 with
    | error fault => rfl
    | ok status =>
      cases status with
      | file => rfl
      | directory => exact absurd hlook hdirectory

theorem outcome_checkSource (hnull : holdsNull source = false)
    (hfile : (look source files).1 = .ok .file) :
    outcome (checkSource source) files = (.ok (), files) := by
  have hfiles := SteadyFileAccess.look_snd source files
  simp only [checkSource, hnull, Bool.false_eq_true, if_false, outcome_bind]
  rw [outcome_status_eq_look, hfiles, hfile]
  rfl

theorem Arguments.AreAccepted.outcome_job (h : arguments.AreAccepted source files) :
    outcome arguments.job files = (.ok (arguments.jobOn source), files) := by
  unfold Arguments.job
  rw [outcome_bind, h.outcome_checkOutput, h.positional]
  dsimp only
  rw [outcome_bind, outcome_checkSource h.source_null h.source_file]
  rfl

theorem Arguments.AreAccepted.outcome_run {words : List String}
    (hwords : Arguments.ofWords words = .ok arguments) (h : arguments.AreAccepted source files) :
    outcome (run words) files =
      (.ok (outcome (arguments.jobOn source).run files).1,
        (outcome (arguments.jobOn source).run files).2) := by
  unfold run
  rw [hwords]
  dsimp only
  rw [h.notice]
  dsimp only
  rw [outcome_bind, h.outcome_job]
  rfl

/-! ## What a run comes to -/

/-- How a job ends on a source file with the given bytes. -/
structure Job.EndsWith (job : Job) (bytes : List UInt8) (files : φ) (result : Result)
    (files' : φ) : Prop where
  undecodable : ∀ fault, Text.Utf8.decode bytes = .error fault →
    result.exit.toNat = 2 ∧ SameFiles files files'
  listed : ∀ text, Text.Utf8.decode bytes = .ok text → job.tokens = true →
    let stream := (Cursor.start job.source.text (.ofList (Text.unifyLineEndings text))).stream
    result.exit.toNat = (if stream.fault.isNone then 0 else 1) ∧ SameFiles files files' ∧
      Text.lines result.stdout.toList = stream.tokens.map (·.listing.toList) ++ [[]]
  rejected : ∀ text fault, Text.Utf8.decode bytes = .ok text → job.tokens = false →
    let source := String.ofList (Text.unifyLineEndings text)
    Options.standard.compile source job.source.text = .error fault →
    result.exit.toNat = 1 ∧ SameFiles files files' ∧
      result.stderr =
        job.log (job.opening :: (Options.standard.attempt source job.source.text).notes) ++
          echo fault.report
  compiled : ∀ text compilation, Text.Utf8.decode bytes = .ok text → job.tokens = false →
    let source := String.ofList (Text.unifyLineEndings text)
    Options.standard.compile source job.source.text = .ok compilation →
    let program := Text.Utf8.encode compilation.text.toList
    ((∃ fault, (writeAt job.destination.text program files).1 = .error fault) →
      result.exit.toNat = 4 ∧ SameFiles files files') ∧
    ((writeAt job.destination.text program files).1 = .ok () →
      result.exit.toNat = 0 ∧ Replaces files job.destination.text program files')

variable {job : Job} {bytes : List UInt8}

theorem endsWith_of_undecodable {fault : Text.Utf8.Fault}
    (hread : readAt job.source.text files = (.ok bytes, files))
    (hdecode : Text.Utf8.decode bytes = .error fault) :
    job.EndsWith bytes files (outcome job.run files).1 (outcome job.run files).2 := by
  rw [CommandLine.outcome_run, outcome_readSource hread, hdecode]
  refine ⟨fun _ _ ↦ ⟨rfl, rfl⟩, ?_, ?_, ?_⟩ <;> intros <;> simp_all

theorem endsWith_of_tokens {text : List Char}
    (hread : readAt job.source.text files = (.ok bytes, files))
    (hdecode : Text.Utf8.decode bytes = .ok text) (htokens : job.tokens = true) :
    job.EndsWith bytes files (outcome job.run files).1 (outcome job.run files).2 := by
  rw [CommandLine.outcome_run, outcome_readSource hread, hdecode]
  simp only [htokens, if_true]
  refine ⟨?_, fun text' htext' _ ↦ ?_, ?_, ?_⟩
  · intros
    simp_all
  · have htext : text' = text := by simp_all
    subst htext
    refine ⟨?_, rfl, ?_⟩
    · rw [Result.exit_after, exit_listTokens]
      split <;> rfl
    · have hstdout := stdout_listTokens job (.ofList (Text.unifyLineEndings text'))
      rw [Result.after, String.empty_append, hstdout]
      exact lines_listing _
  · intros
    simp_all
  · intros
    simp_all

theorem endsWith_of_compile {text : List Char}
    (hread : readAt job.source.text files = (.ok bytes, files))
    (hdecode : Text.Utf8.decode bytes = .ok text) (htokens : job.tokens = false)
    (hnull : holdsNull job.destination.text = false) :
    job.EndsWith bytes files (outcome job.run files).1 (outcome job.run files).2 := by
  rw [CommandLine.outcome_run, outcome_readSource hread, hdecode]
  simp only [htokens, Bool.false_eq_true, if_false]
  refine ⟨?_, ?_, fun text' fault htext' _ hcompile ↦ ?_,
    fun text' compilation htext' _ hcompile ↦ ?_⟩
  · intros
    simp_all
  · intros
    simp_all
  · have htext : text' = text := by simp_all
    subst htext
    obtain ⟨result, hresult, hexit, hstderr⟩ := compile_of_error files hcompile
    rw [hresult]
    refine ⟨by rw [Result.exit_after, hexit]; rfl, rfl, ?_⟩
    rw [Result.after, hstderr, ← String.append_assoc, ← log_append]
    rfl
  · have htext : text' = text := by simp_all
    subst htext
    obtain ⟨result, hresult, hexit⟩ := compile_of_ok files hcompile hnull
    rw [hresult]
    constructor
    · intro hrefused
      obtain ⟨fault, hfault⟩ := hrefused
      rw [hfault] at hexit
      refine ⟨by rw [Result.exit_after, hexit]; rfl, ?_⟩
      exact sameFiles_of_writeAt (Prod.ext hfault rfl)
    · intro hwritten
      rw [hwritten] at hexit
      refine ⟨by rw [Result.exit_after, hexit]; rfl, ?_⟩
      exact replaces_of_writeAt (Prod.ext hwritten rfl)

/-- The command never ends with an internal error, and with arguments that are accepted it ends as
the bytes of the source file and the answer to a write decide. -/
theorem endsWith_of_run (words : List String) (files : φ) :
    (∀ result, (outcome (run words) files).1 = .ok result → result.exit.toNat ≠ 3) ∧
    ∀ arguments source, Arguments.ofWords words = .ok arguments →
      arguments.AreAccepted source files →
      ∃ bytes result files', (readAt source files).1 = .ok bytes ∧
        outcome (run words) files = (.ok result, files') ∧
        (arguments.jobOn source).EndsWith bytes files result files' := by
  constructor
  · intro result hresult hthree
    have hexit := exit_of_run hresult
    cases hcode : result.exit <;> simp_all [ExitCode.toNat]
  · intro arguments source hwords haccepted
    obtain ⟨bytes, hsource, hread⟩ := exists_readAt_of_look haccepted.source_file
    refine ⟨bytes, _, _, hsource, haccepted.outcome_run hwords, ?_⟩
    have hnull := holdsNull_destination haccepted.source_null haccepted.output_null
    cases hdecode : Text.Utf8.decode bytes with
    | error fault => exact endsWith_of_undecodable hread hdecode
    | ok text =>
      cases htokens : (arguments.jobOn source).tokens with
      | true => exact endsWith_of_tokens hread hdecode htokens
      | false => exact endsWith_of_compile hread hdecode htokens hnull

end

/-- A working directory with one program. -/
def letterFiles : FileStore :=
  ⟨[(["a.teeny"], .file (Text.Utf8.encode "PRINT \"a\"\r\n".toList))], []⟩

/-- Arguments that name the program and another directory entry for its translation. -/
def letterArguments : Arguments :=
  ⟨["a.teeny"], some "./b.c", false, true, none⟩

theorem areAccepted_letterArguments : letterArguments.AreAccepted "a.teeny" letterFiles where
  notice := rfl
  positional := rfl
  source_null := by decide
  source_file := by decide +kernel
  output_null path h := by
    cases h
    decide
  output_file path h := by
    cases h
    decide +kernel

/-- The program is compiled and written. -/
theorem endsWith_of_run_letter :
    Arguments.ofWords ["-vo", "./b.c", "a.teeny"] = .ok letterArguments ∧
      letterArguments.AreAccepted "a.teeny" letterFiles ∧
      ∃ result files',
        outcome (run ["-vo", "./b.c", "a.teeny"]) letterFiles = (.ok result, files') ∧
        (letterArguments.jobOn "a.teeny").EndsWith (Text.Utf8.encode "PRINT \"a\"\r\n".toList)
          letterFiles result files' := by
  have hwords : Arguments.ofWords ["-vo", "./b.c", "a.teeny"] = .ok letterArguments := by
    decide +kernel
  have hbytes : (readAt "a.teeny" letterFiles).1 =
      .ok (Text.Utf8.encode "PRINT \"a\"\r\n".toList) := by
    decide +kernel
  obtain ⟨bytes, result, files', hread, hrun, hends⟩ :=
    (endsWith_of_run ["-vo", "./b.c", "a.teeny"] letterFiles).2 letterArguments "a.teeny" hwords
      areAccepted_letterArguments
  cases hbytes.symm.trans hread
  exact ⟨hwords, areAccepted_letterArguments, result, files', hrun, hends⟩

end CommandLine

end TeenyBasic
