import Mathlib.Algebra.Order.Field.Basic
import Mathlib.Algebra.Order.Field.Rat
import Mathlib.Data.List.Permutation
import Mathlib.Data.List.Sort
import Mathlib.Data.Prod.Lex
import Mathlib.Data.String.Basic
import Mathlib.Tactic.NormNum
import Mathlib.Tactic.Positivity
import TeenyBasic.Proofs.Similarity.Matching
import TeenyBasic.Similarity.Ranking

/-!
# The best suggestions

Similarities are fractions, and they are compared as such: their denominators are positive, so that
multiplying crosswise gives the order of their values. Candidates are thereby ranked in a linear
order, first by their similarity and then by their code points, and suggestions are the first close
candidates in that order, counted as often as they are given. They do not depend on the order in
which candidates are given.

Similarity is one exactly for the name itself, which is why a candidate that equals the name is
always suggested first.

The main statement is `isBestSelection_of_suggest`.
-/

namespace TeenyBasic.Similarity

def Ratio.value (r : Ratio) : ℚ :=
  r.numerator / r.denominator

/-- The similarity of a candidate to a name, as a number. -/
def similarity (name candidate : String) : ℚ :=
  (ratio name.toList candidate.toList).value

/-- The number of characters of a candidate that are matched with a name. -/
def matchedCharacters (name candidate : String) : Nat :=
  matched (fun c ↦ !isPopular name.toList c) candidate.toList name.toList

theorem Ratio.le_iff_value_le {r s : Ratio} (hr : 0 < r.denominator) (hs : 0 < s.denominator) :
    r.le s = true ↔ r.value ≤ s.value := by
  have hr' : (0 : ℚ) < r.denominator := by exact_mod_cast hr
  have hs' : (0 : ℚ) < s.denominator := by exact_mod_cast hs
  rw [Ratio.le, decide_eq_true_iff, value, value, div_le_div_iff₀ hr' hs']
  exact_mod_cast Iff.rfl

theorem denominator_ratio_pos (name candidate : List Char) :
    0 < (ratio name candidate).denominator := by
  unfold ratio
  dsimp only
  split
  · exact Nat.one_pos
  · dsimp only
    omega

theorem similarity_eq (name candidate : String) :
    similarity name candidate =
      if candidate.length + name.length = 0 then 1
      else (2 * matchedCharacters name candidate : ℚ) / (candidate.length + name.length) := by
  unfold similarity ratio matchedCharacters Ratio.value
  simp only [String.length_toList]
  split
  · simp
  · push_cast
    rfl

theorem two_mul_matchedCharacters_le (name candidate : String) :
    2 * matchedCharacters name candidate ≤ candidate.length + name.length := by
  have hle := matched_le (fun c ↦ !isPopular name.toList c) candidate.toList name.toList
  rw [String.length_toList, String.length_toList] at hle
  unfold matchedCharacters
  omega

theorem similarity_nonneg (name candidate : String) : 0 ≤ similarity name candidate := by
  rw [similarity_eq]
  split
  · exact zero_le_one
  · positivity

theorem similarity_le_one (name candidate : String) : similarity name candidate ≤ 1 := by
  have hle := two_mul_matchedCharacters_le name candidate
  rw [similarity_eq]
  split
  · exact le_refl 1
  · rename_i hlength
    have hpos : (0 : ℚ) < candidate.length + name.length := by
      exact_mod_cast Nat.pos_of_ne_zero hlength
    rw [div_le_one hpos]
    exact_mod_cast hle

theorem similarity_eq_one_iff (name candidate : String) :
    similarity name candidate = 1 ↔ candidate = name := by
  have hmatched := two_mul_matched_eq_iff (fun c ↦ !isPopular name.toList c) candidate.toList
    name.toList
  rw [String.length_toList, String.length_toList, String.toList_inj] at hmatched
  rw [similarity_eq, ← hmatched]
  split
  · rename_i hlength
    have hle := two_mul_matchedCharacters_le name candidate
    unfold matchedCharacters at hle
    simp only [true_iff]
    omega
  · rename_i hlength
    have hne : (candidate.length + name.length : ℚ) ≠ 0 := by exact_mod_cast hlength
    rw [div_eq_one_iff_eq hne]
    unfold matchedCharacters
    exact_mod_cast Iff.rfl

/-- The rank of a candidate: its similarity, and its text among equally similar ones. -/
def rank (name candidate : String) : ℚ ×ₗ String :=
  toLex (similarity name candidate, candidate)

theorem rank_injective (name : String) : Function.Injective (rank name) :=
  fun _ _ h ↦ congrArg Prod.snd (toLex.injective h)

theorem similarity_le_of_rank_le {name s t : String} (h : rank name s ≤ rank name t) :
    similarity name s ≤ similarity name t := by
  rcases (Prod.Lex.toLex_le_toLex).mp h with hlt | ⟨heq, -⟩
  · exact le_of_lt hlt
  · exact le_of_eq heq

/-- Candidates are listed from the highest rank to the lowest. -/
theorem precedes_iff_rank_le (name s t : String) :
    Ranked.precedes ⟨ratio name.toList s.toList, s⟩ ⟨ratio name.toList t.toList, t⟩ = true ↔
      rank name t ≤ rank name s := by
  have hle : ∀ u v : String, (ratio name.toList u.toList).le (ratio name.toList v.toList) = true ↔
      similarity name u ≤ similarity name v :=
    fun u v ↦ Ratio.le_iff_value_le (denominator_ratio_pos _ _) (denominator_ratio_pos _ _)
  rw [rank, rank, Prod.Lex.toLex_le_toLex, Ranked.precedes]
  dsimp only
  split
  · rename_i hst
    rw [hle] at hst
    rw [Bool.and_eq_true, hle, decide_eq_true_iff]
    constructor
    · rintro ⟨hts, hcandidates⟩
      exact .inr ⟨le_antisymm hts hst, hcandidates⟩
    · rintro (hlt | ⟨heq, hcandidates⟩)
      · exact absurd hlt (not_lt_of_ge hst)
      · exact ⟨le_of_eq heq, hcandidates⟩
  · rename_i hst
    rw [hle] at hst
    exact iff_of_true rfl (.inl (not_le.mp hst))

/-- The close candidates, from the highest rank to the lowest. -/
def listed (name : String) (candidates : List String) : List String :=
  (candidates.filter fun s ↦ 3 / 5 ≤ similarity name s).mergeSort
    fun s t ↦ rank name t ≤ rank name s

theorem map_candidate_ranking (name : String) (candidates : List String) :
    (ranking name candidates).map Ranked.candidate = listed name candidates := by
  have hclose : ∀ s : String, threshold.le (ratio name.toList s.toList) =
      decide (3 / 5 ≤ similarity name s) := by
    intro s
    have hvalue : threshold.value = 3 / 5 := by norm_num [threshold, Ratio.value]
    rw [Bool.eq_iff_iff, decide_eq_true_iff, ← hvalue]
    exact Ratio.le_iff_value_le (by decide) (denominator_ratio_pos _ _)
  unfold ranking listed
  dsimp only
  rw [List.map_mergeSort (s := fun s t ↦ rank name t ≤ rank name s)]
  · rw [List.filter_map, List.map_map]
    simp only [Function.comp_def, hclose, List.map_id']
  · intro x hx y hy
    obtain ⟨s, -, rfl⟩ := List.mem_map.mp (List.mem_filter.mp hx).1
    obtain ⟨t, -, rfl⟩ := List.mem_map.mp (List.mem_filter.mp hy).1
    rw [Bool.eq_iff_iff, decide_eq_true_iff]
    exact precedes_iff_rank_le name s t

theorem closest_eq_take_listed (limit : Nat) (name : String) (candidates : List String) :
    closest limit name candidates = (listed name candidates).take limit := by
  rw [closest, List.map_take, map_candidate_ranking]

theorem pairwise_listed (name : String) (candidates : List String) :
    (listed name candidates).Pairwise fun s t ↦ rank name t ≤ rank name s := by
  have hsorted : (listed name candidates).Pairwise fun s t ↦
      decide (rank name t ≤ rank name s) = true := by
    apply List.pairwise_mergeSort
    · intro s t u hst htu
      rw [decide_eq_true_iff] at hst htu ⊢
      exact le_trans htu hst
    · intro s t
      rw [Bool.or_eq_true, decide_eq_true_iff, decide_eq_true_iff]
      exact le_total _ _
  exact hsorted.imp fun h ↦ of_decide_eq_true h

theorem mem_listed {name s : String} {candidates : List String} :
    s ∈ listed name candidates ↔ s ∈ candidates ∧ 3 / 5 ≤ similarity name s := by
  rw [listed, List.mem_mergeSort, List.mem_filter, decide_eq_true_iff]

theorem count_listed {name s : String} (h : 3 / 5 ≤ similarity name s)
    (candidates : List String) : (listed name candidates).count s = candidates.count s := by
  rw [listed, (List.mergeSort_perm _ _).count_eq, List.count_filter (by simpa using h)]

theorem listed_perm {candidates reordered : List String} (h : candidates.Perm reordered)
    (name : String) : listed name candidates = listed name reordered := by
  have hperm : (listed name candidates).Perm (listed name reordered) :=
    ((List.mergeSort_perm _ _).trans (h.filter _)).trans (List.mergeSort_perm _ _).symm
  refine List.Perm.eq_of_pairwise ?_ (pairwise_listed name candidates)
    (pairwise_listed name reordered) hperm
  intro s t _ _ hts hst
  exact rank_injective name (le_antisymm hst hts)

theorem head?_listed {name : String} {candidates : List String} (h : name ∈ candidates) :
    (listed name candidates).head? = some name := by
  have hone := (similarity_eq_one_iff name name).mpr rfl
  have hmem : name ∈ listed name candidates := mem_listed.mpr ⟨h, by rw [hone]; norm_num⟩
  have hpairwise := pairwise_listed name candidates
  cases hlisted : listed name candidates with
  | nil =>
    rw [hlisted] at hmem
    cases hmem
  | cons first others =>
    rw [hlisted] at hmem hpairwise
    rcases List.mem_cons.mp hmem with rfl | hother
    · rfl
    · have hrank := (List.pairwise_cons.mp hpairwise).1 name hother
      have hfirst : similarity name first = 1 := by
        apply le_antisymm (similarity_le_one name first)
        rw [← hone]
        exact similarity_le_of_rank_le hrank
      rw [(similarity_eq_one_iff name first).mp hfirst]
      rfl

/-- The best candidates for a name, at most as many as the limit allows. -/
structure IsBestSelection (name : String) (limit : Nat) (candidates chosen : List String) :
    Prop where
  length_le : chosen.length ≤ limit
  count_le : ∀ s, chosen.count s ≤ candidates.count s
  isClose : ∀ s ∈ chosen, 3 / 5 ≤ similarity name s
  descending : chosen.Pairwise fun s t ↦ rank name t ≤ rank name s
  /-- A close candidate is left out only for want of room, and it ranks no higher than those that
  are chosen. -/
  best : ∀ s, chosen.count s < candidates.count s → 3 / 5 ≤ similarity name s →
    chosen.length = limit ∧ ∀ t ∈ chosen, rank name s ≤ rank name t

theorem isBestSelection_take (name : String) (limit : Nat) (candidates : List String) :
    IsBestSelection name limit candidates ((listed name candidates).take limit) := by
  have hpairwise := pairwise_listed name candidates
  have hsplit := List.take_append_drop limit (listed name candidates)
  rw [← hsplit, List.pairwise_append] at hpairwise
  obtain ⟨hchosen, -, hacross⟩ := hpairwise
  exact {
    length_le := List.length_take_le limit _
    count_le := fun s ↦ by
      have hlisted : (listed name candidates).count s ≤ candidates.count s := by
        rw [listed, (List.mergeSort_perm _ _).count_eq]
        exact List.filter_sublist.count_le s
      exact ((List.take_sublist limit _).count_le s).trans hlisted
    isClose := fun s hs ↦ (mem_listed.mp (List.mem_of_mem_take hs)).2
    descending := hchosen
    best := fun s hcount hclose ↦ by
      have hrest : s ∈ (listed name candidates).drop limit := by
        rw [← count_listed hclose candidates, ← hsplit, List.count_append, hsplit] at hcount
        exact List.count_pos_iff.mp (by omega)
      refine ⟨?_, fun t ht ↦ hacross t ht s hrest⟩
      have hlength := List.length_pos_of_mem hrest
      rw [List.length_drop] at hlength
      rw [List.length_take]
      omega }

/-- What the similarity of a candidate to a name says about their characters. -/
structure Compares (name candidate : String) : Prop where
  similarity_eq : similarity name candidate =
    if candidate.length + name.length = 0 then 1
    else (2 * matchedCharacters name candidate : ℚ) / (candidate.length + name.length)
  exists_common : ∃ common : List Char, common.Sublist candidate.toList ∧
    common.Sublist name.toList ∧ common.length = matchedCharacters name candidate
  nonneg : 0 ≤ similarity name candidate
  le_one : similarity name candidate ≤ 1
  eq_one_iff : similarity name candidate = 1 ↔ candidate = name

theorem compares (name candidate : String) : Compares name candidate where
  similarity_eq := similarity_eq name candidate
  exists_common := exists_sublist_of_matched _ _ _
  nonneg := similarity_nonneg name candidate
  le_one := similarity_le_one name candidate
  eq_one_iff := similarity_eq_one_iff name candidate

/-- Suggestions are the best candidates, whatever order they are given in, and a candidate that
equals the name comes first. -/
theorem isBestSelection_of_suggest (limit : Int) (hlimit : 1 ≤ limit) (name : String)
    (candidates : List String) :
    (∃ chosen, suggest limit name candidates = .ok chosen ∧
      IsBestSelection name limit.toNat candidates chosen ∧
      (name ∈ candidates → chosen.head? = some name)) ∧
    (∀ reordered, candidates.Perm reordered →
      suggest limit name reordered = suggest limit name candidates) ∧
    ∀ candidate, Compares name candidate := by
  have hsuggest : ∀ list, suggest limit name list =
      .ok ((listed name list).take limit.toNat) := by
    intro list
    rw [suggest, if_neg (by omega), closest_eq_take_listed]
  refine ⟨⟨_, hsuggest candidates, isBestSelection_take name _ candidates, fun hname ↦ ?_⟩,
    fun reordered h ↦ ?_, compares name⟩
  · rw [List.head?_take, if_neg (by omega)]
    exact head?_listed hname
  · rw [hsuggest, hsuggest, listed_perm h]

/-- The name itself comes first, and of a candidate that is given twice only one fits behind it. -/
theorem isBestSelection_of_suggest_repeated :
    suggest 2 "nums" ["num", "x", "nums", "num"] = .ok ["nums", "num"] ∧
      IsBestSelection "nums" 2 ["num", "x", "nums", "num"] ["nums", "num"] := by
  have hsuggest : suggest 2 "nums" ["num", "x", "nums", "num"] = .ok ["nums", "num"] := by
    cbv
  obtain ⟨⟨chosen, hchosen, hbest, -⟩, -⟩ :=
    isBestSelection_of_suggest 2 (by decide) "nums" ["num", "x", "nums", "num"]
  cases hsuggest.symm.trans hchosen
  exact ⟨hsuggest, hbest⟩

end TeenyBasic.Similarity
