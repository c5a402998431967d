import Mathlib.Data.List.Induction
import TeenyBasic.Diagnostic
import TeenyBasic.Reserved
import TeenyBasic.Scope
import TeenyBasic.Proofs.Source.Tree

/-!
# Names of a program

A walk over the mentions of a program, from left to right, enters names into a scope and stops at
the first mention that the names before it forbid: a reserved name, a variable that is read before
a statement gives it a value, or a label that is declared twice.

The main statements are `records_of_enterAll`, which says what a walk that comes to its end leaves in
the scope, and `exists_enterAll_iff`, which says when it comes to its end.
-/

namespace TeenyBasic

open Source

/-- Enters the name of a mention into a scope, or tells what is wrong with it. -/
def Scope.enter (scope : Scope) (mention : Mention) : Except Cause Scope :=
  let name := mention.name.spelling
  let location := mention.name.location
  match mention.role with
  | .target =>
    if scope.declaredVariables.contains name then .ok scope
    else if name ∈ Reserved.variableNames then .error (.reservedName name)
    else .ok { scope with declaredVariables := scope.declaredVariables.insertNew name location }
  | .reading =>
    if scope.declaredVariables.contains name then .ok scope
    else .error (.undeclared name scope.declaredVariables.names)
  | .label =>
    if name ∈ Reserved.labelNames then .error (.reservedName name)
    else if scope.declaredLabels.contains name then
      .error (.duplicateLabel name (scope.declaredLabels.find? name))
    else .ok { scope with declaredLabels := scope.declaredLabels.insertNew name location }
  | .jump =>
    if name ∈ Reserved.labelNames then .error (.reservedName name)
    else .ok { scope with referencedLabels := scope.referencedLabels.insertNew name location }

/-- Enters mentions one after another, up to the first one that something is wrong with. -/
def Scope.enterAll (scope : Scope) : List Mention → Except (Cause × Location) Scope
  | [] => .ok scope
  | mention :: rest =>
    match scope.enter mention with
    | .ok scope' => scope'.enterAll rest
    | .error cause => .error (cause, mention.name.location)

theorem Scope.enterAll_append (scope : Scope) (a b : List Mention) :
    scope.enterAll (a ++ b) =
      match scope.enterAll a with
      | .ok scope' => scope'.enterAll b
      | .error objection => .error objection := by
  induction a generalizing scope with
  | nil => rfl
  | cons mention rest ih =>
    simp only [List.cons_append, enterAll]
    cases scope.enter mention with
    | ok scope' => exact ih scope'
    | error cause => rfl

theorem Scope.enterAll_append_of_ok {scope scope' : Scope} {a b : List Mention}
    (h : scope.enterAll a = .ok scope') : scope.enterAll (a ++ b) = scope'.enterAll b := by
  rw [enterAll_append, h]

theorem Scope.enterAll_singleton_of_ok {scope scope' : Scope} {mention : Mention}
    (h : scope.enter mention = .ok scope') : scope.enterAll [mention] = .ok scope' := by
  simp [enterAll, h]

/-- Mentions can be entered in a row exactly when the last of them can be entered behind the
others. -/
theorem Scope.enterAll_concat_eq_ok_iff (scope last : Scope) (mentions : List Mention)
    (mention : Mention) :
    scope.enterAll (mentions ++ [mention]) = .ok last ↔
      ∃ scope', scope.enterAll mentions = .ok scope' ∧ scope'.enter mention = .ok last := by
  rw [enterAll_append]
  cases scope.enterAll mentions with
  | error objection => simp
  | ok scope' =>
    simp only [enterAll]
    cases henter : scope'.enter mention <;> simp [henter]

/-- A scope holds the names of a list of mentions. -/
structure Records (scope : Scope) (mentions : List Mention) : Prop where
  variableNames : scope.declaredVariables.names = (namesInRole .target mentions).eraseDups
  labelNames : scope.declaredLabels.names = namesInRole .label mentions
  mem_jumps : ∀ name,
    name ∈ scope.referencedLabels.names ↔ name ∈ namesInRole .jump mentions

theorem Records.empty : Records .empty [] where
  variableNames := rfl
  labelNames := rfl
  mem_jumps _ := Iff.rfl

theorem Records.contains_variable_iff {scope : Scope} {mentions : List Mention}
    (h : Records scope mentions) (name : String) :
    scope.declaredVariables.contains name = true ↔ name ∈ namesInRole .target mentions := by
  rw [Table.contains, List.contains_iff_mem, h.variableNames, List.mem_eraseDups]

theorem Records.contains_label_iff {scope : Scope} {mentions : List Mention}
    (h : Records scope mentions) (name : String) :
    scope.declaredLabels.contains name = true ↔ name ∈ namesInRole .label mentions := by
  rw [Table.contains, List.contains_iff_mem, h.labelNames]

@[simp] theorem namesInRole_singleton (role : Role) (mention : Mention) :
    namesInRole role [mention] =
      if mention.role = role then [mention.name.spelling] else [] := by
  by_cases h : mention.role = role <;> simp [namesInRole, h]

theorem eraseDups_concat (names : List String) (name : String) :
    (names ++ [name]).eraseDups =
      if name ∈ names then names.eraseDups else names.eraseDups ++ [name] := by
  rw [List.eraseDups_append]
  by_cases h : name ∈ names <;> simp [List.removeAll, h, List.eraseDups_cons]

theorem Records.enter {scope last : Scope} {mentions : List Mention} {mention : Mention}
    (h : Records scope mentions) (henter : scope.enter mention = .ok last) :
    Records last (mentions ++ [mention]) := by
  obtain ⟨role, name⟩ := mention
  cases role with
  | target =>
    simp only [Scope.enter] at henter
    split at henter
    · rename_i hknown
      have hmem := (h.contains_variable_iff name.spelling).mp hknown
      cases henter
      constructor
      · calc
          _ = (namesInRole .target mentions).eraseDups := h.variableNames
          _ = (namesInRole .target mentions ++ [name.spelling]).eraseDups := by
            rw [eraseDups_concat, if_pos hmem]
          _ = _ := by rw [namesInRole_append, namesInRole_singleton, if_pos rfl]
      · simp [h.labelNames, namesInRole_append]
      · simp [h.mem_jumps, namesInRole_append]
    · rename_i hnew
      have hmem : name.spelling ∉ namesInRole .target mentions :=
        fun hmem ↦ hnew ((h.contains_variable_iff name.spelling).mpr hmem)
      split at henter
      · cases henter
      cases henter
      constructor
      · calc
          _ = (namesInRole .target mentions).eraseDups ++ [name.spelling] := by
            rw [Table.names_insertNew, if_neg hnew, h.variableNames]
          _ = (namesInRole .target mentions ++ [name.spelling]).eraseDups := by
            rw [eraseDups_concat, if_neg hmem]
          _ = _ := by rw [namesInRole_append, namesInRole_singleton, if_pos rfl]
      · simp [h.labelNames, namesInRole_append]
      · simp [h.mem_jumps, namesInRole_append]
  | reading =>
    simp only [Scope.enter] at henter
    split at henter
    · cases henter
      constructor
      · simp [h.variableNames, namesInRole_append]
      · simp [h.labelNames, namesInRole_append]
      · simp [h.mem_jumps, namesInRole_append]
    · cases henter
  | label =>
    simp only [Scope.enter] at henter
    split at henter
    · cases henter
    split at henter
    · cases henter
    rename_i hnew
    cases henter
    constructor
    · simp [h.variableNames, namesInRole_append]
    · calc
        _ = namesInRole .label mentions ++ [name.spelling] := by
          rw [Table.names_insertNew, if_neg hnew, h.labelNames]
        _ = _ := by rw [namesInRole_append, namesInRole_singleton, if_pos rfl]
    · simp [h.mem_jumps, namesInRole_append]
  | jump =>
    simp only [Scope.enter] at henter
    split at henter
    · cases henter
    cases henter
    constructor
    · simp [h.variableNames, namesInRole_append]
    · simp [h.labelNames, namesInRole_append]
    · intro other
      have hcontains := Table.contains_insertNew_iff scope.referencedLabels name.spelling other
        name.location
      simp only [Table.contains, List.contains_iff_mem] at hcontains
      rw [hcontains, h.mem_jumps, namesInRole_append, namesInRole_singleton, if_pos rfl,
        List.mem_append, List.mem_singleton]

/-- A walk from the empty scope that comes to its end leaves the names that were mentioned. -/
theorem records_of_enterAll {scope : Scope} {mentions : List Mention}
    (h : Scope.empty.enterAll mentions = .ok scope) : Records scope mentions := by
  induction mentions using List.reverseRecOn generalizing scope with
  | nil =>
    cases h
    exact Records.empty
  | append_singleton mentions mention ih =>
    obtain ⟨scope', hmentions, hmention⟩ :=
      (Scope.enterAll_concat_eq_ok_iff _ _ _ _).mp h
    exact (ih hmentions).enter hmention

/-- What is asked of the names of a program, apart from the targets of jumps: no variable and no
label has a reserved name, a variable is read only behind a statement that gives it a value, and no
label is declared twice. -/
structure WellNamed (mentions : List Mention) : Prop where
  targets : ∀ name ∈ namesInRole .target mentions, name ∉ Reserved.variableNames
  labels : ∀ name ∈ namesInRole .label mentions, name ∉ Reserved.labelNames
  jumps : ∀ name ∈ namesInRole .jump mentions, name ∉ Reserved.labelNames
  readings : ∀ before name after, mentions = before ++ ⟨.reading, name⟩ :: after →
    name.spelling ∈ namesInRole .target before
  nodup_labels : (namesInRole .label mentions).Nodup

/-- What is asked of one more name behind a list of mentions. -/
def FitsBehind (mentions : List Mention) (mention : Mention) : Prop :=
  match mention.role with
  | .target => mention.name.spelling ∉ Reserved.variableNames
  | .reading => mention.name.spelling ∈ namesInRole .target mentions
  | .label => mention.name.spelling ∉ Reserved.labelNames ∧
      mention.name.spelling ∉ namesInRole .label mentions
  | .jump => mention.name.spelling ∉ Reserved.labelNames

theorem wellNamed_nil : WellNamed [] where
  targets := by simp
  labels := by simp
  jumps := by simp
  readings := by simp
  nodup_labels := List.nodup_nil

theorem WellNamed.of_concat {mentions : List Mention} {mention : Mention}
    (h : WellNamed (mentions ++ [mention])) : WellNamed mentions := by
  have hsubset : ∀ {role : Role} {name : String}, name ∈ namesInRole role mentions →
      name ∈ namesInRole role (mentions ++ [mention]) := by
    intro role name hname
    rw [namesInRole_append]
    exact List.mem_append_left _ hname
  constructor
  · exact fun name hname ↦ h.targets name (hsubset hname)
  · exact fun name hname ↦ h.labels name (hsubset hname)
  · exact fun name hname ↦ h.jumps name (hsubset hname)
  · rintro before name after rfl
    exact h.readings before name (after ++ [mention]) (by simp)
  · have hnodup := h.nodup_labels
    rw [namesInRole_append, List.nodup_append] at hnodup
    exact hnodup.1

theorem WellNamed.fitsBehind {mentions : List Mention} {mention : Mention}
    (h : WellNamed (mentions ++ [mention])) : FitsBehind mentions mention := by
  obtain ⟨role, name⟩ := mention
  have hlast : name.spelling ∈ namesInRole role (mentions ++ [⟨role, name⟩]) := by
    simp [namesInRole_append]
  cases role with
  | target => exact h.targets _ hlast
  | reading => exact h.readings mentions name [] rfl
  | label =>
    have hnodup := h.nodup_labels
    rw [namesInRole_append, namesInRole_singleton, if_pos rfl, List.nodup_append] at hnodup
    refine ⟨h.labels _ hlast, fun hmem ↦ ?_⟩
    exact hnodup.2.2 _ hmem _ List.mem_cons_self rfl
  | jump => exact h.jumps _ hlast

theorem WellNamed.concat {mentions : List Mention} {mention : Mention} (h : WellNamed mentions)
    (hfits : FitsBehind mentions mention) : WellNamed (mentions ++ [mention]) := by
  obtain ⟨role, name⟩ := mention
  constructor
  · intro other hother
    rw [namesInRole_append, List.mem_append] at hother
    rcases hother with hother | hother
    · exact h.targets other hother
    · cases role <;> simp_all [FitsBehind]
  · intro other hother
    rw [namesInRole_append, List.mem_append] at hother
    rcases hother with hother | hother
    · exact h.labels other hother
    · cases role <;> simp_all [FitsBehind]
  · intro other hother
    rw [namesInRole_append, List.mem_append] at hother
    rcases hother with hother | hother
    · exact h.jumps other hother
    · cases role <;> simp_all [FitsBehind]
  · intro before other after heq
    rcases List.eq_nil_or_concat after with rfl | ⟨front, last, rfl⟩
    · obtain ⟨rfl, hmention⟩ := List.append_inj' heq rfl
      cases hmention
      exact hfits
    · rw [List.concat_eq_append, ← List.cons_append, ← List.append_assoc] at heq
      obtain ⟨hmentions, _⟩ := List.append_inj' heq rfl
      exact h.readings before other front hmentions
  · rw [namesInRole_append, List.nodup_append]
    refine ⟨h.nodup_labels, by cases role <;> simp, fun a ha b hb ↦ ?_⟩
    cases role <;> simp_all [FitsBehind]
    rintro rfl
    exact hfits.2 ha

/-- One more name can be entered exactly when it fits behind the mentions that a scope holds. A
variable that the scope holds was checked when it was entered. -/
theorem Records.exists_enter_iff {scope : Scope} {mentions : List Mention}
    (h : Records scope mentions) (hwell : WellNamed mentions) (mention : Mention) :
    (∃ last, scope.enter mention = .ok last) ↔ FitsBehind mentions mention := by
  obtain ⟨role, name⟩ := mention
  cases role with
  | target =>
    simp only [Scope.enter, FitsBehind]
    split
    · rename_i hknown
      have hmem := (h.contains_variable_iff name.spelling).mp hknown
      exact ⟨fun _ ↦ hwell.targets _ hmem, fun _ ↦ ⟨scope, rfl⟩⟩
    · split <;> simp_all
  | reading =>
    simp only [Scope.enter, FitsBehind]
    rw [← h.contains_variable_iff]
    split <;> simp_all
  | label =>
    simp only [Scope.enter, FitsBehind]
    rw [← h.contains_label_iff]
    split
    · simp_all
    · split <;> simp_all
  | jump =>
    simp only [Scope.enter, FitsBehind]
    split <;> simp_all

/-- A walk from the empty scope comes to its end exactly when the names are what is asked of
them. -/
theorem exists_enterAll_iff (mentions : List Mention) :
    (∃ scope, Scope.empty.enterAll mentions = .ok scope) ↔ WellNamed mentions := by
  induction mentions using List.reverseRecOn with
  | nil => exact ⟨fun _ ↦ wellNamed_nil, fun _ ↦ ⟨Scope.empty, rfl⟩⟩
  | append_singleton mentions mention ih =>
    constructor
    · rintro ⟨last, hlast⟩
      obtain ⟨scope, hscope, henter⟩ := (Scope.enterAll_concat_eq_ok_iff _ _ _ _).mp hlast
      have hwell := ih.mp ⟨scope, hscope⟩
      have hrecords := records_of_enterAll hscope
      exact hwell.concat ((hrecords.exists_enter_iff hwell mention).mp ⟨last, henter⟩)
    · intro h
      obtain ⟨scope, hscope⟩ := ih.mpr h.of_concat
      have hrecords := records_of_enterAll hscope
      obtain ⟨last, henter⟩ :=
        (hrecords.exists_enter_iff h.of_concat mention).mpr h.fitsBehind
      exact ⟨last, (Scope.enterAll_concat_eq_ok_iff _ _ _ _).mpr ⟨scope, hscope, henter⟩⟩

/-- None of the names that are mentioned is closed to all uses. -/
def Unreserved (mentions : List Mention) : Prop :=
  ∀ mention ∈ mentions, mention.name.spelling ∉ Reserved.labelNames

/-- Names that are in order are not reserved: a variable that is read was checked where it was
given a value. -/
theorem WellNamed.unreserved {mentions : List Mention} (h : WellNamed mentions) :
    Unreserved mentions := by
  rintro ⟨role, name⟩ hmention
  have hvariable : name.spelling ∉ Reserved.variableNames →
      name.spelling ∉ Reserved.labelNames :=
    fun hname hmem ↦ hname (Reserved.labelNames_subset_variableNames hmem)
  have hmem : name.spelling ∈ namesInRole role mentions := by
    rw [namesInRole, List.mem_map]
    exact ⟨⟨role, name⟩, by simpa using hmention, rfl⟩
  cases role with
  | target => exact hvariable (h.targets _ hmem)
  | reading =>
    obtain ⟨before, after, hsplit⟩ := List.append_of_mem hmention
    have htarget := h.readings before name after hsplit
    apply hvariable
    apply h.targets
    rw [hsplit, namesInRole_append]
    exact List.mem_append_left _ htarget
  | label => exact h.labels _ hmem
  | jump => exact h.jumps _ hmem

theorem Table.exists_find?_of_mem {table : Table} {name : String} (h : name ∈ table.names) :
    ∃ location, table.find? name = some location := by
  obtain ⟨entry, hentry, hname⟩ := List.mem_map.mp h
  have hsome : (table.entries.lookup name).isSome = true := by
    rw [List.lookup_isSome_iff]
    exact ⟨entry, hentry, by simp [hname]⟩
  exact Option.isSome_iff_exists.mp hsome

theorem Scope.exists_find?_of_mem_unresolved {scope : Scope} {name : String}
    (h : name ∈ scope.unresolved) : ∃ location, scope.referencedLabels.find? name = some location :=
  Table.exists_find?_of_mem (List.mem_filter.mp h).1

theorem Records.unresolved_eq_nil_iff {scope : Scope} {mentions : List Mention}
    (h : Records scope mentions) :
    scope.unresolved = [] ↔
      ∀ name ∈ namesInRole .jump mentions, name ∈ namesInRole .label mentions := by
  rw [Scope.unresolved, List.filter_eq_nil_iff]
  constructor
  · intro hall name hname
    have hresolved := hall name ((h.mem_jumps name).mpr hname)
    rw [← h.contains_label_iff]
    simpa using hresolved
  · intro hall name hname
    have hlabel := hall name ((h.mem_jumps name).mp hname)
    rw [← h.contains_label_iff] at hlabel
    simp [hlabel]

end TeenyBasic
