import TeenyBasic.Proofs.Session.Respelling

/-!
# Paths with another suffix

Giving a path another suffix changes at most its last part. The path stays as it is exactly if its
last part ends with the suffix already, behind at least one character; a part that is nothing but
the suffix has none, since a dot at its start does not count.

In the file store a path that has been changed in this way leads to another place, if it leads
anywhere: both paths pass the same directories, and the last one has different entries under
different names.
-/

namespace TeenyBasic

namespace Path

/-- A suffix: a dot, and then at least one character, none of them a dot or a slash. -/
structure IsSuffix (suffix letters : List Char) : Prop where
  suffix_eq : suffix = '.' :: letters
  ne_nil : letters ≠ []
  dot_not_mem : '.' ∉ letters
  slash_not_mem : '/' ∉ letters

variable {suffix letters : List Char}

theorem stem_append (h : IsSuffix suffix letters) {front : List Char} (hfront : front ≠ []) :
    stem (front ++ suffix) = front := by
  have hreverse : (front ++ suffix).reverse = letters.reverse ++ '.' :: front.reverse := by
    simp [h.suffix_eq]
  have hletters : ∀ c ∈ letters.reverse, decide (c ≠ '.') = true := by
    intro c hc
    simpa using fun heq : c = '.' ↦ h.dot_not_mem (heq ▸ List.mem_reverse.mp hc)
  have hafter : (front ++ suffix).reverse.takeWhile (· ≠ '.') = letters.reverse := by
    rw [hreverse, List.takeWhile_append_of_pos hletters]
    simp
  have hbefore : ((front ++ suffix).reverse.dropWhile (· ≠ '.')).drop 1 = front.reverse := by
    rw [hreverse, List.dropWhile_append_of_pos hletters]
    simp
  unfold stem
  rw [hafter, hbefore, if_neg (by simp [h.ne_nil, hfront]), List.reverse_reverse]

theorem stem_ne_nil {name : List Char} (h : name ≠ []) : stem name ≠ [] := by
  unfold stem
  dsimp only
  split
  · exact h
  · rename_i hparts
    rw [not_or] at hparts
    simpa using hparts.2

theorem stem_append_eq_iff (h : IsSuffix suffix letters) (name : List Char) :
    stem name ++ suffix = name ↔ ∃ front, front ≠ [] ∧ name = front ++ suffix := by
  constructor
  · intro hsame
    have hne : name ≠ [] := by
      rintro rfl
      rw [h.suffix_eq] at hsame
      simp at hsame
    exact ⟨stem name, stem_ne_nil hne, hsame.symm⟩
  · rintro ⟨front, hfront, rfl⟩
    rw [stem_append h hfront]

/-- A path whose last part ends with a suffix, behind at least one character. -/
def EndsWith (path : Path) (suffix : String) : Prop :=
  ∃ name front, path.parts.getLast? = some name ∧ front ≠ [] ∧
    name.toList = front ++ suffix.toList

theorem withSuffix_concat (root : Nat) (parts : List String) (name suffix : String) :
    withSuffix ⟨root, parts ++ [name]⟩ suffix =
      ⟨root, parts ++ [String.ofList (stem name.toList) ++ suffix]⟩ := by
  simp only [withSuffix, List.getLast?_concat, List.dropLast_concat]

theorem endsWith_concat_iff (root : Nat) (parts : List String) (name suffix : String) :
    EndsWith ⟨root, parts ++ [name]⟩ suffix ↔
      ∃ front, front ≠ [] ∧ name.toList = front ++ suffix.toList := by
  unfold EndsWith
  simp only [List.getLast?_concat, Option.some.injEq]
  constructor
  · rintro ⟨_, front, rfl, hfront, hname⟩
    exact ⟨front, hfront, hname⟩
  · rintro ⟨front, hfront, hname⟩
    exact ⟨name, front, rfl, hfront, hname⟩

/-- A path with parts keeps its suffix exactly if it ends with it. -/
theorem withSuffix_eq_self_iff {path : Path} {suffix : String}
    (h : IsSuffix suffix.toList letters) (hparts : path.parts ≠ []) :
    path.withSuffix suffix = path ↔ path.EndsWith suffix := by
  obtain ⟨root, parts⟩ := path
  obtain ⟨front, name, rfl⟩ := List.eq_nil_or_concat' parts |>.resolve_left hparts
  rw [withSuffix_concat, endsWith_concat_iff, ← stem_append_eq_iff h, Path.mk.injEq,
    List.append_cancel_left_eq, List.cons.injEq, ← String.toList_inj, String.toList_append,
    String.toList_ofList]
  simp

/-- A path whose parts can be told from its spelling: they hold no slashes and name something. -/
structure IsProper (path : Path) : Prop where
  slash_not_mem : ∀ piece ∈ path.pieces, '/' ∉ piece
  not_isIdle : ∀ piece ∈ path.pieces, isIdle piece = false

theorem isProper_ofSpelling (spelling : String) : (ofSpelling spelling).IsProper :=
  ⟨slash_not_mem_pieces spelling, not_isIdle_pieces spelling⟩

theorem append_ne_dots (h : IsSuffix suffix letters) (front : List Char) :
    front ++ suffix ≠ [] ∧ front ++ suffix ≠ ['.'] ∧ front ++ suffix ≠ ['.', '.'] := by
  have hletters : ∀ dots : List Char, (∀ c ∈ dots, c = '.') → front ++ suffix ≠ dots := by
    rintro dots hdots rfl
    obtain ⟨letter, hletter⟩ := List.exists_mem_of_ne_nil letters h.ne_nil
    have hdot := hdots letter (by simp [h.suffix_eq, hletter])
    exact h.dot_not_mem (hdot ▸ hletter)
  exact ⟨hletters _ (by simp), hletters _ (by simp), hletters _ (by simp)⟩

theorem IsProper.withSuffix {path : Path} (hpath : path.IsProper) {suffix : String}
    (h : IsSuffix suffix.toList letters) : (path.withSuffix suffix).IsProper := by
  obtain ⟨root, parts⟩ := path
  rcases List.eq_nil_or_concat' parts with rfl | ⟨front, name, rfl⟩
  · exact hpath
  · obtain ⟨hslash, hidle⟩ := hpath
    have hpieces : (Path.withSuffix ⟨root, front ++ [name]⟩ suffix).pieces =
        front.map String.toList ++ [stem name.toList ++ suffix.toList] := by
      rw [withSuffix_concat]
      simp [pieces]
    have hparts : pieces ⟨root, front ++ [name]⟩ = front.map String.toList ++ [name.toList] := by
      simp [pieces]
    rw [hparts, List.forall_mem_append] at hslash hidle
    constructor
    · rw [hpieces, List.forall_mem_append]
      refine ⟨hslash.1, ?_⟩
      have hname : '/' ∉ name.toList := hslash.2 _ (List.mem_singleton_self _)
      have hstem : '/' ∉ stem name.toList := fun hmem ↦ hname (mem_of_mem_stem hmem)
      simpa [h.suffix_eq, hstem] using h.slash_not_mem
    · rw [hpieces, List.forall_mem_append]
      refine ⟨hidle.1, ?_⟩
      obtain ⟨hempty, hdot, -⟩ := append_ne_dots h (stem name.toList)
      simpa [isIdle] using ⟨fun hstem ↦ by simpa [hstem] using hempty, hdot⟩

end Path

namespace FileStore

variable {store : FileStore} {place place' directory : Place}

/-- The directory at which the parts of a path are followed first. -/
def origin (path : Path) : Place :=
  if path.root = 0 then .inside [] else .outside .root

theorem entryAt_origin (path : Path) : store.entryAt (origin path) = some .directory := by
  unfold origin
  split <;> rfl

theorem foldlM_follow_of_locate {path : Path} (hpath : path.IsProper)
    (h : store.locate path.text = .ok place) :
    path.parts.foldlM store.follow (origin path) = .ok place := by
  have hroot := Path.rootOf_eq_zero_iff_of_pieces hpath.slash_not_mem hpath.not_isIdle
  obtain ⟨front, hfront, hpieces⟩ := Path.exists_splitSlashes_of_pieces hpath.slash_not_mem
  have hparts : path.pieces.map String.ofList = path.parts := by simp [Path.pieces]
  unfold locate at h
  split at h
  · cases h
  split at h
  · cases h
  dsimp only at h
  simp only [hroot] at h
  rw [hpieces] at h
  have hfollow := (foldlM_follow_append (entryAt_origin path) hfront path.pieces).symm.trans h
  rwa [hparts] at hfollow

theorem follow_cases {part : String} (h : store.follow directory part = .ok place) :
    place = directory ∨ place = parent directory ∨ place = child part directory := by
  unfold follow at h
  split at h
  · cases h
  · cases h
  · split at h
    · cases h
      exact .inl rfl
    split at h
    · cases h
      exact .inr (.inl rfl)
    split at h
    · cases h
    · cases h
      exact .inr (.inr rfl)

theorem eq_child_of_follow {part : String} (h : store.follow directory part = .ok place)
    (hpart : part ≠ "" ∧ part ≠ "." ∧ part ≠ "..") : place = child part directory := by
  obtain ⟨hempty, hdot, hdots⟩ := hpart
  unfold follow at h
  split at h
  · cases h
  · cases h
  · rw [if_neg (by simp [hempty, hdot]), if_neg hdots] at h
    split at h
    · cases h
    · cases h
      rfl

/-- An entry of a directory is found neither at the directory, nor at its parent, nor under another
name. -/
theorem child_ne {part other : String} (h : store.entryAt directory = some .directory)
    (hne : part ≠ other) : child other directory ≠ directory ∧
      child other directory ≠ parent directory ∧
      child other directory ≠ child part directory := by
  cases directory with
  | inside names =>
    refine ⟨by simp [child], ?_, by simp [child, Ne.symm hne]⟩
    intro heq
    cases names with
    | nil => cases heq
    | cons first rest =>
      have hlength := congrArg List.length (Place.inside.inj heq)
      simp at hlength
      omega
  | outside outer =>
    refine ⟨by simp [child], ?_, by simp [child, Ne.symm hne]⟩
    cases outer <;> simp [child, parent]
  | beyond outer name => simp [entryAt] at h

theorem ne_of_follow {part other : String} (h : store.follow directory part = .ok place)
    (h' : store.follow directory other = .ok place') (hne : part ≠ other)
    (hother : other ≠ "" ∧ other ≠ "." ∧ other ≠ "..") : place' ≠ place := by
  obtain ⟨hself, hparent, hchild⟩ := child_ne (entryAt_of_follow h) hne
  rw [eq_child_of_follow h' hother]
  rcases follow_cases h with rfl | rfl | rfl
  · exact hself
  · exact hparent
  · exact hchild

theorem foldlM_follow_concat {parts : List String} {part : String} {start : Place} :
    (parts ++ [part]).foldlM store.follow start = .ok place ↔
      ∃ directory, parts.foldlM store.follow start = .ok directory ∧
        store.follow directory part = .ok place := by
  rw [List.foldlM_append]
  cases parts.foldlM store.follow start with
  | error fault => simp [bind, Except.bind]
  | ok directory =>
    change (store.follow directory part >>= pure) = .ok place ↔ _
    rw [bind_pure]
    simp

/-- A path that changes with its suffix leads elsewhere. -/
theorem locate_withSuffix_ne {path : Path} {suffix : String} {letters : List Char}
    (hpath : path.IsProper) (hsuffix : Path.IsSuffix suffix.toList letters)
    (hchanged : path.withSuffix suffix ≠ path) (h : store.locate path.text = .ok place)
    (h' : store.locate (path.withSuffix suffix).text = .ok place') : place' ≠ place := by
  have hway := foldlM_follow_of_locate hpath h
  have hway' := foldlM_follow_of_locate (hpath.withSuffix hsuffix) h'
  obtain ⟨root, parts⟩ := path
  rcases List.eq_nil_or_concat' parts with rfl | ⟨front, name, rfl⟩
  · exact absurd rfl hchanged
  · have hname : name ≠ String.ofList (Path.stem name.toList) ++ suffix := by
      intro heq
      apply hchanged
      rw [Path.withSuffix_concat, ← heq]
    obtain ⟨hempty, hdot, htwo⟩ := Path.append_ne_dots hsuffix (Path.stem name.toList)
    have htext : (String.ofList (Path.stem name.toList) ++ suffix).toList =
        Path.stem name.toList ++ suffix.toList := by
      rw [String.toList_append, String.toList_ofList]
    rw [Path.withSuffix_concat] at hway'
    obtain ⟨directory, hfront, hlast⟩ := foldlM_follow_concat.mp hway
    obtain ⟨directory', hfront', hlast'⟩ := foldlM_follow_concat.mp hway'
    obtain rfl : directory' = directory := Except.ok.inj (hfront'.symm.trans hfront)
    refine ne_of_follow hlast hlast' hname ⟨?_, ?_, ?_⟩
    · exact fun heq ↦ hempty (htext ▸ congrArg String.toList heq)
    · exact fun heq ↦ hdot (htext ▸ congrArg String.toList heq)
    · exact fun heq ↦ htwo (htext ▸ congrArg String.toList heq)

/-- The path of a file leads to the same place with a suffix exactly if it ends with it. -/
theorem locate_withSuffix_eq_iff {spelling suffix : String} {letters : List Char}
    (hsuffix : Path.IsSuffix suffix.toList letters) (h : store.locate spelling = .ok place)
    (hplace : store.entryAt place ≠ some .directory) :
    store.locate ((Path.ofSpelling spelling).withSuffix suffix).text = .ok place ↔
      (Path.ofSpelling spelling).EndsWith suffix := by
  have hpath := Path.isProper_ofSpelling spelling
  have hsource := locate_ofSpelling h
  have hparts : (Path.ofSpelling spelling).parts ≠ [] := by
    intro hnil
    have hway := foldlM_follow_of_locate hpath hsource
    rw [hnil] at hway
    cases hway
    exact hplace (entryAt_origin _)
  rw [← Path.withSuffix_eq_self_iff hsuffix hparts]
  constructor
  · intro hsame
    by_contra hchanged
    exact locate_withSuffix_ne hpath hsuffix hchanged hsource hsame rfl
  · intro hsame
    rw [hsame]
    exact hsource

end FileStore

end TeenyBasic
