import TeenyBasic.Text.Quoted

/-!
# Quotations

What stands between quotation marks is printable, whatever has been quoted: characters that are not
are written as escapes, and escapes are made of a backslash, letters and digits. A quotation
therefore takes one line and holds no control sequence.
-/

namespace TeenyBasic.Text

open Quoted Printable

/-- Decides whether a character stands between the space and the tilde. -/
def isGraphic (c : Char) : Bool :=
  0x20 ≤ c.toNat && c.toNat ≤ 0x7E

theorem isPrintable_of_isGraphic {c : Char} (h : isGraphic c = true) : isPrintable c = true := by
  have htable : ∀ part ∈ unprintable, ∀ interval ∈ part, interval.2 < 0x20 ∨ 0x7E < interval.1 := by
    have hall : (unprintable.all fun part ↦ part.all fun interval ↦
        interval.2 < 0x20 || 0x7E < interval.1) = true := by
      decide +kernel
    simpa using hall
  simp only [isGraphic, Bool.and_eq_true, decide_eq_true_eq] at h
  simp only [isPrintable, Bool.not_eq_true', List.any_eq_false]
  intro part hpart
  rw [Bool.not_eq_true, List.any_eq_false]
  intro interval hinterval hinside
  simp only [inside, Bool.and_eq_true, decide_eq_true_eq] at hinside
  have hapart := htable part hpart interval hinterval
  omega

theorem isPrintable_of_all_isGraphic {text : List Char} (h : text.all isGraphic = true) :
    ∀ c ∈ text, isPrintable c = true :=
  fun c hc ↦ isPrintable_of_isGraphic (List.all_eq_true.mp h c hc)

theorem isPrintable_of_mem_toDigits {base : Nat} (hbase : 1 < base) (hlimit : base ≤ 16) (n : Nat) :
    ∀ c ∈ Nat.toDigits base n, isPrintable c = true := by
  have hdigit : ∀ d < 16, isPrintable (Nat.digitChar d) = true := by
    have hgraphic : ∀ d < 16, isGraphic (Nat.digitChar d) = true := by decide
    exact fun d hd ↦ isPrintable_of_isGraphic (hgraphic d hd)
  induction n using Nat.strongRecOn with
  | _ n ih =>
    by_cases hsmall : n < base
    · rw [Nat.toDigits_of_lt_base hsmall]
      simpa using hdigit n (by omega)
    · rw [Nat.toDigits_of_base_le hbase (by omega)]
      intro c hc
      rcases List.mem_append.mp hc with hfront | hlast
      · exact ih _ (Nat.div_lt_self (by omega) hbase) c hfront
      · have hrest : n % base < base := Nat.mod_lt _ (by omega)
        rw [List.mem_singleton.mp hlast]
        exact hdigit (n % base) (by omega)

theorem isPrintable_of_mem_repr (n : Int) : ∀ c ∈ n.repr.toList, isPrintable c = true := by
  have hnatural : ∀ k : Nat, ∀ c ∈ k.repr.toList, isPrintable c = true := by
    intro k c hc
    have hdigits : k.repr.toList = Nat.toDigits 10 k := by simp [Nat.repr]
    rw [hdigits] at hc
    exact isPrintable_of_mem_toDigits (by decide) (by decide) k c hc
  cases n with
  | ofNat k => exact hnatural k
  | negSucc k =>
    change ∀ c ∈ ("-" ++ k.succ.repr).toList, isPrintable c = true
    intro c hc
    rw [String.toList_append, List.mem_append] at hc
    rcases hc with hsign | hdigits
    · exact isPrintable_of_all_isGraphic (by decide) c hsign
    · exact hnatural _ c hdigits

theorem isPrintable_of_mem_escapeByCode (code : Nat) :
    ∀ c ∈ escapeByCode code, isPrintable c = true := by
  have hhexadecimal : ∀ width, ∀ c ∈ hexadecimal width code, isPrintable c = true := by
    intro width c hc
    rcases List.mem_append.mp hc with hzero | hdigits
    · rw [List.eq_of_mem_replicate hzero]
      rfl
    · exact isPrintable_of_mem_toDigits (by decide) (by decide) code c hdigits
  have hescape : ∀ letter ∈ ['x', 'u', 'U'], ∀ width,
      ∀ c ∈ backslash :: letter :: hexadecimal width code, isPrintable c = true := by
    have hletters : ∀ c ∈ [backslash, 'x', 'u', 'U'], isPrintable c = true :=
      isPrintable_of_all_isGraphic (by decide)
    intro letter hletter width c hc
    rcases List.mem_cons.mp hc with rfl | hc
    · exact hletters _ List.mem_cons_self
    · rcases List.mem_cons.mp hc with rfl | hc
      · exact hletters _ (List.mem_cons_of_mem _ hletter)
      · exact hhexadecimal width c hc
  unfold escapeByCode
  split
  · exact hescape 'x' (by decide) 2
  · split
    · exact hescape 'u' (by decide) 4
    · exact hescape 'U' (by decide) 8

theorem isPrintable_of_mem_escape {mark : Char} (hmark : isPrintable mark = true) (c : Char) :
    ∀ d ∈ escape mark c, isPrintable d = true := by
  have hbackslash : isPrintable backslash = true := isPrintable_of_isGraphic (by decide)
  have hshort : ∀ letter ∈ ['n', 'r', 't'], isPrintable letter = true :=
    isPrintable_of_all_isGraphic (by decide)
  unfold escape
  split
  · rename_i hplain
    rw [Bool.or_eq_true, decide_eq_true_eq, decide_eq_true_eq] at hplain
    rcases hplain with rfl | rfl
    · simp [hbackslash, hmark]
    · simp [hbackslash]
  split
  · simp [hbackslash, hshort]
  split
  · simp [hbackslash, hshort]
  split
  · simp [hbackslash, hshort]
  split
  · rename_i hprintable
    simpa using hprintable
  · exact isPrintable_of_mem_escapeByCode c.toNat

theorem isPrintable_of_mem_quoted (text : String) :
    ∀ c ∈ (quoted text).toList, isPrintable c = true := by
  have hmark : isPrintable (mark text.toList) = true := by
    unfold mark
    split <;> decide +kernel
  intro c hc
  simp only [quoted, String.toList_ofList, List.cons_append, List.mem_cons, List.mem_append,
    List.mem_flatMap, List.not_mem_nil, or_false] at hc
  rcases hc with rfl | ⟨d, _, hd⟩ | rfl
  · exact hmark
  · exact isPrintable_of_mem_escape hmark d c hd
  · exact hmark

end TeenyBasic.Text
