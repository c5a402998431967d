import TeenyBasic.Proofs.Source.Naming

/-!
# Objections to names

What is wrong with a name is a matter of the mentions before it alone: a reserved name is wrong
anywhere, a variable that is read needs a mention before it that gives it a value, and a label must
not have been declared before. An objection to a declared label points back to the mention that
declared it first.

The walk of `Scope.enterAll` keeps tables in place of the mentions it has gone through. The main
statements say that it finds the same: `enterAll_eq_error_iff`, on the first objection, and
`IsFirstOpenJump.head?_unresolved`, on the first jump that is left open.
-/

namespace TeenyBasic

open Source

namespace Source

/-- The first mention of a name in a role. -/
def firstMention? (role : Role) (name : String) (mentions : List Mention) : Option Mention :=
  mentions.find? fun mention ↦ mention.role = role && mention.name.spelling = name

/-- What is wrong with a mention, given the mentions before it. -/
def objection? (before : List Mention) (mention : Mention) : Option Cause :=
  let name := mention.name.spelling
  match mention.role with
  | .target => if name ∈ Reserved.variableNames then some (.reservedName name) else none
  | .reading =>
    let known := namesInRole .target before
    if name ∈ known then none else some (.undeclared name known.eraseDups)
  | .label =>
    if name ∈ Reserved.labelNames then some (.reservedName name)
    else (firstMention? .label name before).map fun first ↦
      .duplicateLabel name (some first.name.location)
  | .jump => if name ∈ Reserved.labelNames then some (.reservedName name) else none

/-- Something is wrong with a mention among others. -/
def IsObjection (mentions : List Mention) (mention : Mention) (cause : Cause) : Prop :=
  ∃ before after, mentions = before ++ mention :: after ∧ objection? before mention = some cause

/-- Something is wrong with a mention, and nothing with those before it. -/
def IsFirstObjection (mentions : List Mention) (mention : Mention) (cause : Cause) : Prop :=
  ∃ before after, mentions = before ++ mention :: after ∧ objection? before mention = some cause ∧
    ∀ other cause, ¬ IsObjection before other cause

/-- A jump whose name no label has. -/
def IsOpenJump (mentions : List Mention) (target : Name) : Prop :=
  ⟨.jump, target⟩ ∈ mentions ∧ target.spelling ∉ namesInRole .label mentions

/-- A jump whose name no label has, and that is the first of its kind. -/
def IsFirstOpenJump (mentions : List Mention) (target : Name) : Prop :=
  target.spelling ∉ namesInRole .label mentions ∧
    ∃ before after, mentions = before ++ ⟨.jump, target⟩ :: after ∧
      ∀ name ∈ namesInRole .jump before, name ∈ namesInRole .label mentions

theorem IsFirstObjection.isObjection {mentions : List Mention} {mention : Mention} {cause : Cause}
    (h : IsFirstObjection mentions mention cause) : IsObjection mentions mention cause := by
  obtain ⟨before, after, hsplit, hcause, _⟩ := h
  exact ⟨before, after, hsplit, hcause⟩

theorem IsFirstOpenJump.isOpenJump {mentions : List Mention} {target : Name}
    (h : IsFirstOpenJump mentions target) : IsOpenJump mentions target := by
  obtain ⟨hopen, before, after, rfl, _⟩ := h
  exact ⟨by simp, hopen⟩

theorem firstMention?_append (role : Role) (name : String) (a b : List Mention) :
    firstMention? role name (a ++ b) =
      (firstMention? role name a).or (firstMention? role name b) :=
  List.find?_append

theorem firstMention?_singleton (role : Role) (name : String) (mention : Mention) :
    firstMention? role name [mention] =
      if mention.role = role ∧ mention.name.spelling = name then some mention else none := by
  simp only [firstMention?, List.find?_singleton, Bool.and_eq_true, decide_eq_true_eq]

theorem mem_namesInRole_iff {role : Role} {name : String} {mentions : List Mention} :
    name ∈ namesInRole role mentions ↔
      ∃ mention ∈ mentions, mention.role = role ∧ mention.name.spelling = name := by
  simp [namesInRole, and_assoc]

theorem firstMention?_eq_none_iff {role : Role} {name : String} {mentions : List Mention} :
    firstMention? role name mentions = none ↔ name ∉ namesInRole role mentions := by
  rw [firstMention?, List.find?_eq_none, mem_namesInRole_iff]
  simp

theorem objection?_eq_none_iff (before : List Mention) (mention : Mention) :
    objection? before mention = none ↔ FitsBehind before mention := by
  obtain ⟨role, name⟩ := mention
  cases role with
  | target => simp [objection?, FitsBehind]
  | reading => simp [objection?, FitsBehind]
  | label =>
    rw [FitsBehind, ← firstMention?_eq_none_iff]
    by_cases hreserved : name.spelling ∈ Reserved.labelNames <;> simp [objection?, hreserved]
  | jump => simp [objection?, FitsBehind]

theorem isObjection_concat_iff {mentions : List Mention} {last mention : Mention} {cause : Cause} :
    IsObjection (mentions ++ [last]) mention cause ↔
      IsObjection mentions mention cause ∨
        mention = last ∧ objection? mentions last = some cause := by
  constructor
  · rintro ⟨before, after, hsplit, hcause⟩
    rcases List.eq_nil_or_concat after with rfl | ⟨front, final, rfl⟩
    · obtain ⟨rfl, hlast⟩ := List.append_inj' hsplit rfl
      cases hlast
      exact .inr ⟨rfl, hcause⟩
    · rw [List.concat_eq_append, ← List.cons_append, ← List.append_assoc] at hsplit
      obtain ⟨hmentions, _⟩ := List.append_inj' hsplit rfl
      exact .inl ⟨before, front, hmentions, hcause⟩
  · rintro (⟨before, after, rfl, hcause⟩ | ⟨rfl, hcause⟩)
    · exact ⟨before, after ++ [last], by simp, hcause⟩
    · exact ⟨mentions, [], rfl, hcause⟩

/-- Names are in order exactly when there is no objection to any of them. -/
theorem wellNamed_iff (mentions : List Mention) :
    WellNamed mentions ↔ ∀ mention cause, ¬ IsObjection mentions mention cause := by
  induction mentions using List.reverseRecOn with
  | nil => simp [wellNamed_nil, IsObjection]
  | append_singleton mentions last ih =>
    have hlast : FitsBehind mentions last ↔ ∀ cause, objection? mentions last ≠ some cause := by
      rw [← objection?_eq_none_iff, Option.eq_none_iff_forall_ne_some]
    simp only [isObjection_concat_iff, not_or, not_and]
    constructor
    · intro h mention cause
      refine ⟨ih.mp h.of_concat mention cause, ?_⟩
      rintro rfl
      exact hlast.mp h.fitsBehind cause
    · intro h
      have hbefore := ih.mpr fun mention cause ↦ (h mention cause).1
      exact hbefore.concat (hlast.mpr fun cause ↦ (h last cause).2 rfl)

theorem exists_isFirstObjection {mentions : List Mention} {mention : Mention} {cause : Cause}
    (h : IsObjection mentions mention cause) :
    ∃ first cause, IsFirstObjection mentions first cause := by
  induction mentions using List.reverseRecOn generalizing mention cause with
  | nil => simp [IsObjection] at h
  | append_singleton mentions last ih =>
    by_cases hearlier : ∃ mention cause, IsObjection mentions mention cause
    · obtain ⟨_, _, hearlier⟩ := hearlier
      obtain ⟨first, cause, before, after, rfl, hfirst⟩ := ih hearlier
      exact ⟨first, cause, before, after ++ [last], by simp, hfirst⟩
    · rw [isObjection_concat_iff] at h
      rcases h with h | ⟨rfl, hcause⟩
      · exact absurd ⟨_, _, h⟩ hearlier
      · exact ⟨mention, cause, mentions, [], rfl, hcause,
          fun other cause hother ↦ hearlier ⟨other, cause, hother⟩⟩

end Source

theorem Table.find?_insertNew (table : Table) (name other : String) (location : Location) :
    (table.insertNew name location).find? other =
      (table.find? other).or (if other = name then some location else none) := by
  unfold insertNew
  split
  · rename_i hknown
    by_cases hsame : other = name
    · subst hsame
      obtain ⟨place, hplace⟩ := exists_find?_of_mem (List.contains_iff_mem.mp hknown)
      rw [hplace, Option.some_or]
    · rw [if_neg hsame, Option.or_none]
  · rw [find?, find?, List.lookup_append]
    by_cases hsame : other = name
    · simp [hsame]
    · simp [List.lookup_cons, hsame, beq_false_of_ne hsame]

/-- The tables of a scope lead to the first mentions among those that were entered. -/
structure Locates (scope : Scope) (mentions : List Mention) : Prop where
  labels : ∀ name, scope.declaredLabels.find? name =
    (firstMention? .label name mentions).map (·.name.location)
  jumps : ∀ name, scope.referencedLabels.find? name =
    (firstMention? .jump name mentions).map (·.name.location)
  jumpNames : scope.referencedLabels.names = (namesInRole .jump mentions).eraseDups

theorem Locates.empty : Locates .empty [] where
  labels _ := rfl
  jumps _ := rfl
  jumpNames := rfl

theorem firstMention?_concat_of_ne {role : Role} {mentions : List Mention} {mention : Mention}
    (h : mention.role ≠ role) (name : String) :
    firstMention? role name (mentions ++ [mention]) = firstMention? role name mentions := by
  simp [firstMention?_append, firstMention?_singleton, h]

theorem namesInRole_concat_of_ne {role : Role} {mentions : List Mention} {mention : Mention}
    (h : mention.role ≠ role) :
    namesInRole role (mentions ++ [mention]) = namesInRole role mentions := by
  simp [namesInRole_append, h]

/-- A table that takes up a name with its place still leads to the first mentions. -/
theorem find?_insertNew_concat {role : Role} {mentions : List Mention} {table : Table}
    (h : ∀ name, table.find? name = (firstMention? role name mentions).map (·.name.location))
    (added : Name) (name : String) :
    (table.insertNew added.spelling added.location).find? name =
      (firstMention? role name (mentions ++ [⟨role, added⟩])).map (·.name.location) := by
  rw [Table.find?_insertNew, h, firstMention?_append, firstMention?_singleton]
  cases firstMention? role name mentions with
  | some first => simp
  | none => by_cases hname : name = added.spelling <;> simp [hname, eq_comm]

theorem Locates.enter {scope last : Scope} {mentions : List Mention} {mention : Mention}
    (h : Locates scope mentions) (henter : scope.enter mention = .ok last) :
    Locates last (mentions ++ [mention]) := by
  obtain ⟨role, name⟩ := mention
  have hother (hlabel : role ≠ .label) (hjump : role ≠ .jump)
      (hlabels : last.declaredLabels = scope.declaredLabels)
      (hjumps : last.referencedLabels = scope.referencedLabels) :
      Locates last (mentions ++ [⟨role, name⟩]) := by
    refine ⟨fun other ↦ ?_, fun other ↦ ?_, ?_⟩
    · rw [hlabels, h.labels, firstMention?_concat_of_ne hlabel]
    · rw [hjumps, h.jumps, firstMention?_concat_of_ne hjump]
    · rw [hjumps, h.jumpNames, namesInRole_concat_of_ne hjump]
  cases role with
  | target =>
    simp only [Scope.enter] at henter
    split at henter
    · cases henter
      exact hother (by simp) (by simp) rfl rfl
    split at henter
    · cases henter
    · cases henter
      exact hother (by simp) (by simp) rfl rfl
  | reading =>
    simp only [Scope.enter] at henter
    split at henter <;> cases henter
    exact hother (by simp) (by simp) rfl rfl
  | label =>
    simp only [Scope.enter] at henter
    split at henter
    · cases henter
    split at henter <;> cases henter
    refine ⟨find?_insertNew_concat h.labels name, fun other ↦ ?_, ?_⟩
    · rw [h.jumps, firstMention?_concat_of_ne (by simp)]
    · rw [h.jumpNames, namesInRole_concat_of_ne (by simp)]
  | jump =>
    simp only [Scope.enter] at henter
    split at henter <;> cases henter
    refine ⟨fun other ↦ ?_, find?_insertNew_concat h.jumps name, ?_⟩
    · rw [h.labels, firstMention?_concat_of_ne (by simp)]
    · rw [Table.names_insertNew, Table.contains, h.jumpNames, namesInRole_append,
        namesInRole_singleton, if_pos rfl, eraseDups_concat]
      simp only [List.contains_iff_mem, List.mem_eraseDups]

theorem locates_of_enterAll {scope : Scope} {mentions : List Mention}
    (h : Scope.empty.enterAll mentions = .ok scope) : Locates scope mentions := by
  induction mentions using List.reverseRecOn generalizing scope with
  | nil =>
    cases h
    exact Locates.empty
  | append_singleton mentions mention ih =>
    obtain ⟨scope', hmentions, hmention⟩ := (Scope.enterAll_concat_eq_ok_iff _ _ _ _).mp h
    exact (ih hmentions).enter hmention

theorem enter_eq_error_iff {scope : Scope} {mentions : List Mention}
    (h : Scope.empty.enterAll mentions = .ok scope) (mention : Mention) (cause : Cause) :
    scope.enter mention = .error cause ↔ objection? mentions mention = some cause := by
  have hrecords := records_of_enterAll h
  have hlocates := locates_of_enterAll h
  have hwell := (exists_enterAll_iff mentions).mp ⟨scope, h⟩
  obtain ⟨role, name⟩ := mention
  cases role with
  | target =>
    simp only [Scope.enter, objection?]
    split
    · rename_i hknown
      have hmem := (hrecords.contains_variable_iff name.spelling).mp hknown
      simp [hwell.targets _ hmem]
    · split <;> simp
  | reading =>
    simp only [Scope.enter, objection?, hrecords.contains_variable_iff, hrecords.variableNames]
    split <;> simp
  | label =>
    simp only [Scope.enter, objection?, hrecords.contains_label_iff, hlocates.labels]
    split
    · simp
    cases hfirst : firstMention? .label name.spelling mentions with
    | none => simp [firstMention?_eq_none_iff.mp hfirst]
    | some first =>
      have hmem : name.spelling ∈ namesInRole .label mentions := by
        by_contra hmem
        rw [firstMention?_eq_none_iff.mpr hmem] at hfirst
        cases hfirst
      simp [hmem]
  | jump =>
    simp only [Scope.enter, objection?]
    split <;> simp

/-- The walk over mentions fails at the first objection. -/
theorem enterAll_eq_error_iff (mentions : List Mention) (cause : Cause) (location : Location) :
    Scope.empty.enterAll mentions = .error (cause, location) ↔
      ∃ mention, IsFirstObjection mentions mention cause ∧ mention.name.location = location := by
  constructor
  · intro h
    induction mentions using List.reverseRecOn with
    | nil => cases h
    | append_singleton mentions last ih =>
      rw [Scope.enterAll_append] at h
      cases hbefore : Scope.empty.enterAll mentions with
      | error objection =>
        rw [hbefore] at h
        cases h
        obtain ⟨mention, ⟨before, after, rfl, hfirst⟩, hlocation⟩ := ih hbefore
        exact ⟨mention, ⟨before, after ++ [last], by simp, hfirst⟩, hlocation⟩
      | ok scope =>
        rw [hbefore] at h
        simp only [Scope.enterAll] at h
        split at h <;> cases h
        rename_i henter
        have hwell := (exists_enterAll_iff mentions).mp ⟨scope, hbefore⟩
        exact ⟨last, ⟨mentions, [], rfl, (enter_eq_error_iff hbefore last cause).mp henter,
          (wellNamed_iff mentions).mp hwell⟩, rfl⟩
  · rintro ⟨mention, ⟨before, after, rfl, hcause, hbefore⟩, rfl⟩
    obtain ⟨scope, hscope⟩ := (exists_enterAll_iff before).mpr ((wellNamed_iff before).mpr hbefore)
    have henter := (enter_eq_error_iff hscope mention cause).mpr hcause
    rw [Scope.enterAll_append_of_ok hscope, Scope.enterAll, henter]

/-- Leaving out what does not pass a test and what has occurred before, the first item left is the
first that passes the test. -/
theorem head?_filter_eraseDups (names : List String) (p : String → Bool) :
    (names.eraseDups.filter p).head? = names.find? p := by
  induction names using List.reverseRecOn with
  | nil => rfl
  | append_singleton names name ih =>
    rw [eraseDups_concat, List.find?_append, ← ih]
    split
    · rename_i hmem
      cases hfirst : (names.eraseDups.filter p).head? with
      | some first => rfl
      | none =>
        rw [List.head?_eq_none_iff, List.filter_eq_nil_iff] at hfirst
        have hname := hfirst name (List.mem_eraseDups.mpr hmem)
        simp [hname]
    · rw [List.filter_append, List.head?_append, List.head?_filter, List.head?_filter]

theorem exists_isFirstOpenJump {mentions : List Mention} {target : Name}
    (h : IsOpenJump mentions target) : ∃ first, IsFirstOpenJump mentions first := by
  obtain ⟨hmem, hopen⟩ := h
  have hsome : (mentions.find? fun mention ↦ mention.role = .jump &&
      mention.name.spelling ∉ namesInRole .label mentions).isSome = true := by
    rw [List.find?_isSome]
    exact ⟨_, hmem, by simp [hopen]⟩
  obtain ⟨⟨role, first⟩, hfirst⟩ := Option.isSome_iff_exists.mp hsome
  obtain ⟨htest, before, after, hsplit, hbefore⟩ := List.find?_eq_some_iff_append.mp hfirst
  obtain ⟨rfl, hfirstOpen⟩ :
      role = .jump ∧ first.spelling ∉ namesInRole .label mentions := by simpa using htest
  refine ⟨first, hfirstOpen, before, after, hsplit, fun name hname ↦ ?_⟩
  obtain ⟨mention, hmention, hrole, rfl⟩ := mem_namesInRole_iff.mp hname
  simpa [hrole] using hbefore mention hmention

/-- The first label that a scope has left open, and its place, are those of the first open jump. -/
theorem Source.IsFirstOpenJump.head?_unresolved {scope : Scope} {mentions : List Mention}
    {target : Name} (h : IsFirstOpenJump mentions target) (hlocates : Locates scope mentions)
    (hrecords : Records scope mentions) :
    scope.unresolved.head? = some target.spelling ∧
      scope.referencedLabels.find? target.spelling = some target.location := by
  obtain ⟨hopen, before, after, hsplit, hbefore⟩ := h
  have hjumps : namesInRole .jump mentions =
      namesInRole .jump before ++ target.spelling :: namesInRole .jump after := by
    rw [hsplit, namesInRole_append]
    simp [namesInRole]
  have hlabel (name : String) : scope.declaredLabels.contains name = true ↔
      name ∈ namesInRole .label mentions := hrecords.contains_label_iff name
  constructor
  · rw [Scope.unresolved, hlocates.jumpNames, head?_filter_eraseDups, hjumps, List.find?_append]
    have hclosed : (namesInRole .jump before).find?
        (fun name ↦ !scope.declaredLabels.contains name) = none := by
      rw [List.find?_eq_none]
      intro name hname
      simpa [hlabel] using hbefore name hname
    rw [hclosed, Option.none_or, List.find?_cons_of_pos]
    simpa [← hlabel] using hopen
  · -- An earlier jump to the same name would be open, too.
    have hfirst : firstMention? .jump target.spelling before = none :=
      firstMention?_eq_none_iff.mpr fun hmem ↦ hopen (hbefore _ hmem)
    rw [hlocates.jumps, hsplit, firstMention?_append, hfirst]
    simp [firstMention?]

end TeenyBasic
