import Mathlib.Data.List.TakeWhile
import Mathlib.Data.String.Basic
import TeenyBasic.Proofs.Session.FileSystem

/-!
# Respelled paths

A path that has been read from a spelling is used under a spelling of its own, from which everything
superfluous is gone. It is never longer, has no characters that were not there before but a dot or a
slash, and leads where the first spelling leads.

The file store has these properties because the parts that are left out stay where they are, and can
be followed only from a directory.
-/

namespace TeenyBasic

namespace Path

theorem splitSlashes_eq_splitOn (text : List Char) : splitSlashes text = text.splitOn '/' := by
  induction text with
  | nil => rfl
  | cons c rest ih =>
    rw [splitSlashes, ih, List.splitOn, List.splitOn, List.splitOnP_cons_eq_if_modifyHead]
    simp only [beq_iff_eq]
    split
    · rfl
    · cases h : List.splitOnP (· == '/') rest with
      | nil => exact absurd h (List.splitOnP_ne_nil _ _)
      | cons first others => rfl

theorem splitSlashes_replicate (n : Nat) (text : List Char) :
    splitSlashes (List.replicate n '/' ++ text) = List.replicate n [] ++ splitSlashes text := by
  induction n with
  | zero => rfl
  | succ n ih => simp [List.replicate_succ, splitSlashes, ih]

/-- The parts of a path as lists of characters. -/
def pieces (path : Path) : List (List Char) :=
  path.parts.map String.toList

theorem pieces_ofSpelling (spelling : String) :
    (ofSpelling spelling).pieces =
      (splitSlashes spelling.toList).filter fun part ↦ !isIdle part := by
  simp [pieces, ofSpelling]

theorem toList_text (path : Path) :
    path.text.toList = if path.root = 0 ∧ path.parts = [] then ['.']
      else List.replicate path.root '/' ++ ['/'].intercalate path.pieces := by
  unfold text
  split
  · rfl
  · rw [String.toList_append, String.toList_intercalate, String.toList_ofList]
    rfl

theorem mem_intercalate {c separator : Char} {pieces : List (List Char)}
    (h : c ∈ [separator].intercalate pieces) : c = separator ∨ ∃ piece ∈ pieces, c ∈ piece := by
  induction pieces with
  | nil => cases h
  | cons first others ih =>
    cases others with
    | nil => simpa using Or.inr h
    | cons second others =>
      rw [List.intercalate_cons_cons, List.mem_append, List.mem_append, List.mem_singleton] at h
      rcases h with (hfirst | hseparator) | hothers
      · exact Or.inr ⟨first, List.mem_cons_self, hfirst⟩
      · exact Or.inl hseparator
      · rcases ih hothers with hseparator | ⟨piece, hpiece, hc⟩
        · exact Or.inl hseparator
        · exact Or.inr ⟨piece, List.mem_cons_of_mem _ hpiece, hc⟩

theorem mem_text {path : Path} {c : Char} (h : c ∈ path.text.toList) :
    c = '.' ∨ c = '/' ∨ ∃ part ∈ path.parts, c ∈ part.toList := by
  rw [toList_text] at h
  split at h
  · exact Or.inl (List.mem_singleton.mp h)
  · right
    rcases List.mem_append.mp h with hroot | hpieces
    · exact Or.inl (List.eq_of_mem_replicate hroot)
    · rcases mem_intercalate hpieces with hslash | ⟨piece, hpiece, hc⟩
      · exact Or.inl hslash
      · obtain ⟨part, hpart, rfl⟩ := List.mem_map.mp hpiece
        exact Or.inr ⟨part, hpart, hc⟩

theorem subset_of_mem_splitSlashes (text : List Char) :
    ∀ part ∈ splitSlashes text, part ⊆ text := by
  induction text with
  | nil => simp [splitSlashes]
  | cons c rest ih =>
    have hrest : ∀ part ∈ splitSlashes rest, part ⊆ c :: rest := fun part hpart ↦
      List.subset_cons_of_subset c (ih part hpart)
    unfold splitSlashes
    split
    · simpa using hrest
    · split
      · simp
      · rename_i first others hsplit
        rw [hsplit] at hrest
        intro part hpart
        rcases List.mem_cons.mp hpart with rfl | hothers
        · exact List.cons_subset.mpr ⟨List.mem_cons_self, hrest first List.mem_cons_self⟩
        · exact hrest part (List.mem_cons_of_mem _ hothers)

theorem mem_of_mem_part {spelling part : String} {c : Char}
    (hpart : part ∈ (ofSpelling spelling).parts) (hc : c ∈ part.toList) : c ∈ spelling.toList := by
  have hpiece : part.toList ∈ (ofSpelling spelling).pieces := List.mem_map_of_mem hpart
  rw [pieces_ofSpelling] at hpiece
  exact subset_of_mem_splitSlashes _ _ (List.mem_filter.mp hpiece).1 hc

theorem mem_of_mem_stem {name : List Char} {c : Char} (h : c ∈ stem name) : c ∈ name := by
  unfold stem at h
  dsimp only at h
  split at h
  · exact h
  · rw [List.mem_reverse] at h
    have hback := (List.dropWhile_suffix _).subset ((List.drop_suffix _ _).subset h)
    exact List.mem_reverse.mp hback

theorem mem_of_mem_withSuffix {path : Path} {suffix part : String} {c : Char}
    (hpart : part ∈ (path.withSuffix suffix).parts) (hc : c ∈ part.toList) :
    c ∈ suffix.toList ∨ ∃ part ∈ path.parts, c ∈ part.toList := by
  unfold withSuffix at hpart
  split at hpart
  · exact Or.inr ⟨part, hpart, hc⟩
  · rename_i name hname
    rcases List.mem_append.mp hpart with hfront | hlast
    · exact Or.inr ⟨part, List.dropLast_subset _ hfront, hc⟩
    · rw [List.mem_singleton] at hlast
      rw [hlast, String.toList_append, String.toList_ofList, List.mem_append] at hc
      rcases hc with hstem | hsuffix
      · exact Or.inr ⟨name, List.mem_of_getLast? hname, mem_of_mem_stem hstem⟩
      · exact Or.inl hsuffix

end Path

theorem holdsNull_ofSpelling {spelling : String} (h : holdsNull spelling = false) :
    holdsNull (Path.ofSpelling spelling).text = false := by
  unfold holdsNull at h ⊢
  rw [List.contains_eq_mem, decide_eq_false_iff_not] at h ⊢
  intro hmem
  rcases Path.mem_text hmem with hdot | hslash | ⟨part, hpart, hc⟩
  · exact absurd hdot (by decide)
  · exact absurd hslash (by decide)
  · exact h (Path.mem_of_mem_part hpart hc)

theorem holdsNull_withSuffix {spelling suffix : String} (h : holdsNull spelling = false)
    (hsuffix : holdsNull suffix = false) :
    holdsNull ((Path.ofSpelling spelling).withSuffix suffix).text = false := by
  unfold holdsNull at h hsuffix ⊢
  rw [List.contains_eq_mem, decide_eq_false_iff_not] at h hsuffix ⊢
  intro hmem
  rcases Path.mem_text hmem with hdot | hslash | ⟨part, hpart, hc⟩
  · exact absurd hdot (by decide)
  · exact absurd hslash (by decide)
  · rcases Path.mem_of_mem_withSuffix hpart hc with hend | ⟨old, hold, hc⟩
    · exact hsuffix hend
    · exact h (Path.mem_of_mem_part hold hc)

namespace Path

theorem intercalate_filter_sublist (keep : List Char → Bool) (pieces : List (List Char)) :
    (['/'].intercalate (pieces.filter keep)).Sublist (['/'].intercalate pieces) := by
  induction pieces with
  | nil => exact List.Sublist.refl _
  | cons first others ih =>
    cases others with
    | nil => cases hfirst : keep first <;> simp [hfirst]
    | cons second others =>
      rw [List.intercalate_cons_cons]
      by_cases hfirst : keep first = true
      · rw [List.filter_cons_of_pos hfirst]
        cases hothers : (second :: others).filter keep with
        | nil => simp
        | cons third rest =>
          rw [List.intercalate_cons_cons, ← hothers]
          exact List.Sublist.append (List.Sublist.refl _) ih
      · rw [List.filter_cons_of_neg hfirst]
        exact ih.trans (List.sublist_append_right _ _)

theorem rootOf_le (spelling : List Char) :
    rootOf spelling ≤ (spelling.takeWhile (· = '/')).length := by
  unfold rootOf
  cases (spelling.takeWhile (· = '/')).length with
  | zero => exact Nat.le_refl _
  | succ n => split <;> omega

theorem takeWhile_slash_append (text : List Char) :
    List.replicate (text.takeWhile (· = '/')).length '/' ++ text.dropWhile (· = '/') = text := by
  have hslashes : text.takeWhile (· = '/') =
      List.replicate (text.takeWhile (· = '/')).length '/' := by
    apply List.eq_replicate_of_mem
    intro c hc
    simpa using List.mem_takeWhile_imp hc
  rw [← hslashes]
  exact List.takeWhile_append_dropWhile

theorem pieces_ofSpelling_dropWhile (spelling : String) :
    (ofSpelling spelling).pieces =
      (splitSlashes (spelling.toList.dropWhile (· = '/'))).filter fun part ↦ !isIdle part := by
  rw [pieces_ofSpelling]
  nth_rewrite 1 [← takeWhile_slash_append spelling.toList]
  rw [splitSlashes_replicate, List.filter_append]
  simp [isIdle]

/-- The spelling of its own that a path has is no longer than the one it has been read from. -/
theorem utf8ByteSize_text_le {spelling : String} (h : spelling ≠ "") :
    (ofSpelling spelling).text.utf8ByteSize ≤ spelling.utf8ByteSize := by
  have hsize : ∀ text : String, text.utf8ByteSize = String.utf8Len text.toList := by
    intro text
    rw [← String.utf8ByteSize_ofList, String.ofList_toList]
  rw [hsize, hsize, toList_text]
  split
  · cases hchars : spelling.toList with
    | nil => exact absurd (String.toList_eq_nil_iff.mp hchars) h
    | cons c rest =>
      have hc := Char.utf8Size_pos c
      simp only [String.utf8Len_cons, String.utf8Len_nil]
      have hdot : Char.utf8Size '.' = 1 := rfl
      omega
  · apply String.utf8Len_le_of_sublist
    nth_rewrite 1 [← takeWhile_slash_append spelling.toList]
    apply List.Sublist.append
    · exact List.replicate_sublist_replicate '/' |>.mpr (rootOf_le spelling.toList)
    · have hpieces := intercalate_filter_sublist (fun part ↦ !isIdle part)
        (splitSlashes (spelling.toList.dropWhile (· = '/')))
      rw [← pieces_ofSpelling_dropWhile, splitSlashes_eq_splitOn,
        List.intercalate_splitOn] at hpieces
      exact hpieces

theorem slash_not_mem_pieces (spelling : String) :
    ∀ piece ∈ (ofSpelling spelling).pieces, '/' ∉ piece := by
  intro piece hpiece
  rw [pieces_ofSpelling] at hpiece
  exact slash_not_mem_of_mem_splitSlashes _ _ (List.mem_filter.mp hpiece).1

theorem not_isIdle_pieces (spelling : String) :
    ∀ piece ∈ (ofSpelling spelling).pieces, isIdle piece = false := by
  intro piece hpiece
  rw [pieces_ofSpelling] at hpiece
  simpa using (List.mem_filter.mp hpiece).2

theorem exists_splitSlashes_of_pieces {path : Path} (hslash : ∀ piece ∈ path.pieces, '/' ∉ piece) :
    ∃ front, (∀ part ∈ front, isIdle part = true) ∧
      splitSlashes path.text.toList = front ++ path.pieces := by
  rw [toList_text]
  split
  · rename_i hempty
    refine ⟨[['.']], by simp [isIdle], ?_⟩
    rw [pieces, hempty.2]
    rfl
  · rw [splitSlashes_replicate]
    cases hpieces : path.pieces with
    | nil =>
      refine ⟨List.replicate path.root [] ++ [[]], ?_, by simp [splitSlashes]⟩
      intro part hpart
      rcases List.mem_append.mp hpart with hroot | hlast
      · rw [List.eq_of_mem_replicate hroot]
        rfl
      · rw [List.mem_singleton.mp hlast]
        rfl
    | cons first others =>
      rw [hpieces] at hslash
      refine ⟨List.replicate path.root [], ?_, ?_⟩
      · intro part hpart
        rw [List.eq_of_mem_replicate hpart]
        rfl
      · rw [splitSlashes_eq_splitOn, List.splitOn_intercalate '/' hslash (by simp)]

theorem exists_splitSlashes_text (spelling : String) :
    ∃ front, (∀ part ∈ front, isIdle part = true) ∧
      splitSlashes (ofSpelling spelling).text.toList = front ++ (ofSpelling spelling).pieces :=
  exists_splitSlashes_of_pieces (slash_not_mem_pieces spelling)

theorem rootOf_eq_zero_iff (spelling : List Char) :
    rootOf spelling = 0 ↔ spelling.head? ≠ some '/' := by
  cases spelling with
  | nil => simp [rootOf]
  | cons c rest =>
    by_cases hc : c = '/'
    · have hne : rootOf ('/' :: rest) ≠ 0 := by
        unfold rootOf
        rw [List.takeWhile_cons_of_pos (by simp), List.length_cons]
        split <;> simp_all
      simpa [hc] using hne
    · simp [rootOf, hc]

theorem rootOf_eq_zero_iff_of_pieces {path : Path} (hslash : ∀ piece ∈ path.pieces, '/' ∉ piece)
    (hidle : ∀ piece ∈ path.pieces, isIdle piece = false) :
    rootOf path.text.toList = 0 ↔ path.root = 0 := by
  rw [rootOf_eq_zero_iff, toList_text]
  split
  · rename_i hempty
    simp [hempty.1]
  · rename_i hne
    cases hroot : path.root with
    | succ n => simp [List.replicate_succ]
    | zero =>
      rw [List.replicate_zero, List.nil_append]
      apply iff_of_true _ rfl
      cases hpieces : path.pieces with
      | nil => simp
      | cons first others =>
        rw [hpieces] at hslash hidle
        have hfirst := hslash first List.mem_cons_self
        cases first with
        | nil => exact absurd (hidle [] List.mem_cons_self) (by decide)
        | cons c rest =>
          have hc : c ≠ '/' := fun heq ↦ hfirst (by simp [heq])
          cases others <;> simpa [List.intercalate_cons_cons] using hc

theorem rootOf_text_eq_zero_iff (spelling : String) :
    rootOf (ofSpelling spelling).text.toList = 0 ↔ rootOf spelling.toList = 0 :=
  rootOf_eq_zero_iff_of_pieces (slash_not_mem_pieces spelling) (not_isIdle_pieces spelling)

theorem text_ne_empty (spelling : String) : (ofSpelling spelling).text ≠ "" := by
  intro hempty
  have hroot := rootOf_text_eq_zero_iff spelling
  obtain ⟨front, _, hparts⟩ := exists_splitSlashes_text spelling
  rw [hempty] at hroot hparts
  have hpieces : (ofSpelling spelling).pieces = [] := by
    rw [List.eq_nil_iff_forall_not_mem]
    intro piece hpiece
    have hmem : piece ∈ front ++ (ofSpelling spelling).pieces := List.mem_append_right _ hpiece
    rw [← hparts] at hmem
    have hidle := not_isIdle_pieces spelling piece hpiece
    rw [List.mem_singleton.mp hmem] at hidle
    cases hidle
  have htext := toList_text (ofSpelling spelling)
  rw [if_pos ⟨hroot.mp rfl, List.map_eq_nil_iff.mp hpieces⟩, hempty] at htext
  cases htext

end Path

/-! ## Where a respelled path leads -/

namespace FileStore

variable {store : FileStore} {start place : Place}

theorem follow_of_isIdle {part : List Char} (h : Path.isIdle part = true)
    (hstart : store.entryAt start = some .directory) :
    store.follow start (String.ofList part) = .ok start := by
  have hpart : String.ofList part = "" ∨ String.ofList part = "." := by
    rw [Path.isIdle, Bool.or_eq_true, decide_eq_true_eq, decide_eq_true_eq] at h
    rcases h with rfl | rfl
    · exact Or.inl rfl
    · exact Or.inr rfl
  simp only [follow, hstart, if_pos hpart]

theorem foldlM_follow_filter {parts : List (List Char)}
    (h : (parts.map String.ofList).foldlM store.follow start = .ok place) :
    ((parts.filter fun part ↦ !Path.isIdle part).map String.ofList).foldlM store.follow start =
      .ok place := by
  induction parts generalizing start with
  | nil => exact h
  | cons part parts ih =>
    rw [List.map_cons, List.foldlM_cons] at h
    cases hnext : store.follow start (String.ofList part) with
    | error fault =>
      rw [hnext] at h
      cases h
    | ok after =>
      have hafter := h
      rw [hnext] at hafter
      cases hidle : Path.isIdle part with
      | true =>
        rw [follow_of_isIdle hidle (entryAt_of_follow hnext)] at h
        simpa [hidle] using ih h
      | false =>
        rw [List.filter_cons_of_pos (by simp [hidle]), List.map_cons, List.foldlM_cons, hnext]
        exact ih hafter

/-- Parts that name nothing can be put in front of a way that starts at a directory. -/
theorem foldlM_follow_append {front : List (List Char)}
    (hstart : store.entryAt start = some .directory)
    (h : ∀ part ∈ front, Path.isIdle part = true) (parts : List (List Char)) :
    ((front ++ parts).map String.ofList).foldlM store.follow start =
      (parts.map String.ofList).foldlM store.follow start := by
  induction front with
  | nil => rfl
  | cons part front ih =>
    rw [List.cons_append, List.map_cons, List.foldlM_cons,
      follow_of_isIdle (h part List.mem_cons_self) hstart]
    exact ih fun other hother ↦ h other (List.mem_cons_of_mem _ hother)

/-- A path leads to the same place under the spelling of its own. -/
theorem locate_ofSpelling {spelling : String} (h : store.locate spelling = .ok place) :
    store.locate (Path.ofSpelling spelling).text = .ok place := by
  unfold locate at h ⊢
  split at h
  · cases h
  split at h
  · cases h
  rename_i hempty hlong
  have hsize := Path.utf8ByteSize_text_le hempty
  have hroot := Path.rootOf_text_eq_zero_iff spelling
  obtain ⟨front, hfront, hparts⟩ := Path.exists_splitSlashes_text spelling
  have hstart : store.entryAt (if Path.rootOf spelling.toList = 0 then .inside []
      else .outside .root) = some .directory := by
    split <;> rfl
  rw [if_neg (Path.text_ne_empty spelling), if_neg (by omega)]
  dsimp only at h ⊢
  simp only [hroot]
  rw [hparts, foldlM_follow_append hstart hfront, Path.pieces_ofSpelling]
  exact foldlM_follow_filter h

end FileStore

/-- Files that nothing but a write changes, where looking at a path shows what stands there, and
where a path leads to the same spot under the spelling of its own. -/
class SteadyFileAccess (φ : Type) [FileAccess (StateM φ)] extends LawfulFileAccess φ where
  look_snd (path : String) (files : φ) : (look path files).2 = files
  readAt_snd (path : String) (files : φ) : (readAt path files).2 = files
  look_eq_file_iff (path : String) (files : φ) :
    (look path files).1 = .ok .file ↔
      ∃ bytes, (locate files path).bind (entryAt files) = some (.file bytes)
  locate_ofSpelling (path : String) (files : φ) (spot : Spot) :
    locate files path = some spot → locate files (Path.ofSpelling path).text = some spot

theorem FileStore.status_eq_file_iff {store : FileStore} {spelling : String} :
    store.status spelling = .ok .file ↔
      ∃ bytes, (store.locate spelling).toOption.bind store.entryAt = some (.file bytes) := by
  unfold status
  cases store.locate spelling with
  | error fault => simp [bind, Except.bind, Except.toOption]
  | ok place =>
    simp only [bind, Except.bind, Except.toOption, Option.bind]
    cases store.entryAt place with
    | none => simp
    | some entry => cases entry <;> simp [Entry.status]

instance : SteadyFileAccess FileStore where
  look_snd _ _ := rfl
  readAt_snd _ _ := rfl
  look_eq_file_iff _ _ := FileStore.status_eq_file_iff
  locate_ofSpelling path store place h := by
    change (store.locate path).toOption = some place at h
    change (store.locate (Path.ofSpelling path).text).toOption = some place
    cases hlocate : store.locate path with
    | error fault =>
      rw [hlocate] at h
      cases h
    | ok found =>
      rw [hlocate] at h
      cases h
      rw [FileStore.locate_ofSpelling hlocate]
      rfl

/-- A file that is seen under a path is read under both spellings of the path. -/
theorem exists_readAt_of_look {φ : Type} [FileAccess (StateM φ)] [SteadyFileAccess φ]
    {path : String} {files : φ} (h : (look path files).1 = .ok .file) :
    ∃ bytes, (readAt path files).1 = .ok bytes ∧
      readAt (Path.ofSpelling path).text files = (.ok bytes, files) := by
  obtain ⟨bytes, hentry⟩ := (SteadyFileAccess.look_eq_file_iff path files).mp h
  obtain ⟨spot, hspot, hfile⟩ := Option.bind_eq_some_iff.mp hentry
  have hrespelled := SteadyFileAccess.locate_ofSpelling path files spot hspot
  have hread : (readAt (Path.ofSpelling path).text files).1 = .ok bytes := by
    rw [LawfulFileAccess.readAt_eq_ok_iff, hrespelled]
    exact hfile
  refine ⟨bytes, (LawfulFileAccess.readAt_eq_ok_iff path files bytes).mpr hentry, ?_⟩
  exact Prod.ext hread (SteadyFileAccess.readAt_snd _ files)

end TeenyBasic
