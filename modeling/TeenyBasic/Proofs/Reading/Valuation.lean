import TeenyBasic.Proofs.CLanguage.Arithmetic
import TeenyBasic.Proofs.Reading.Occurrence

/-!
# What expressions come to

An expression without names has an exact rational value in the source, where all numbers are of one
type. In C a number without a point is whole, and a quotient of whole values is cut off. Sums,
differences and products are exact on both sides, so only the quotients within a term can differ:
as soon as one of them does not come out even, the value of the term in C is closer to zero than it
should be, and it stays so unless the term is zero anyway.

The main statement is `keepsValue_iff_of_compile`.
-/

namespace TeenyBasic.Source

section

variable {ω α V W : Type}

/-- The value of a chain whose items are joined from left to right. -/
def Chain.valueBy (item : α → Option V) (join : ω → V → V → Option V) (chain : Chain ω α) :
    Option V :=
  chain.rest.foldl (fun left link ↦ left.bind fun a ↦ (item link.2).bind (join link.1 a))
    (item chain.first)

theorem Chain.valueBy_append_singleton (item : α → Option V) (join : ω → V → V → Option V)
    (first : α) (links : List (ω × α)) (link : ω × α) :
    (Chain.mk first (links ++ [link])).valueBy item join =
      ((Chain.mk first links).valueBy item join).bind fun a ↦
        (item link.2).bind (join link.1 a) := by
  simp [Chain.valueBy]

theorem Chain.exists_of_valueBy {item : α → Option V} {join : ω → V → V → Option V}
    {chain : Chain ω α} {value : V} (h : chain.valueBy item join = some value) :
    ∀ a ∈ chain.items, ∃ b, item a = some b := by
  obtain ⟨first, links⟩ := chain
  induction links using List.reverseRecOn generalizing value with
  | nil => simpa [Chain.items, Chain.valueBy] using ⟨value, h⟩
  | append_singleton links link ih =>
    rw [Chain.valueBy_append_singleton] at h
    obtain ⟨left, hleft, hlast⟩ := Option.bind_eq_some_iff.mp h
    obtain ⟨right, hright, _⟩ := Option.bind_eq_some_iff.mp hlast
    intro a ha
    have hsplit : a ∈ (Chain.mk first links).items ∨ a = link.2 := by
      simpa [Chain.items, or_assoc] using ha
    rcases hsplit with hmem | rfl
    · exact ih hleft a hmem
    · exact ⟨right, hright⟩

/-- A chain has a value if its items have values and joining them always gives one. -/
theorem Chain.exists_valueBy {item : α → Option V} {join : ω → V → V → Option V}
    {chain : Chain ω α} (hjoin : ∀ operator a b, ∃ c, join operator a b = some c)
    (h : ∀ a ∈ chain.items, ∃ b, item a = some b) :
    ∃ value, chain.valueBy item join = some value := by
  obtain ⟨first, links⟩ := chain
  induction links using List.reverseRecOn with
  | nil => exact h first List.mem_cons_self
  | append_singleton links link ih =>
    obtain ⟨left, hleft⟩ := ih fun a ha ↦ h a (by
      simp only [Chain.items, List.map_append, List.mem_cons, List.mem_append] at ha ⊢
      tauto)
    obtain ⟨right, hright⟩ := h link.2 (by simp [Chain.items])
    obtain ⟨value, hvalue⟩ := hjoin link.1 left right
    use value
    rw [Chain.valueBy_append_singleton, hleft, hright]
    exact hvalue

theorem Chain.valueBy_congr {item item' : α → Option V} {join : ω → V → V → Option V}
    {chain : Chain ω α} (h : ∀ a ∈ chain.items, item a = item' a) :
    chain.valueBy item join = chain.valueBy item' join := by
  obtain ⟨first, links⟩ := chain
  induction links using List.reverseRecOn with
  | nil => exact h first List.mem_cons_self
  | append_singleton links link ih =>
    have hlinks := ih fun a ha ↦ h a (by
      simp only [Chain.items, List.map_append, List.mem_cons, List.mem_append] at ha ⊢
      tauto)
    have hlink := h link.2 (by simp [Chain.items])
    rw [Chain.valueBy_append_singleton, Chain.valueBy_append_singleton, hlinks, hlink]

/-- What respects the way in which items are joined respects the value of a chain. -/
theorem Chain.map_valueBy {item : α → Option V} {join : ω → V → V → Option V}
    {join' : ω → W → W → Option W} {f : V → W}
    (h : ∀ operator a b, (join operator a b).map f = join' operator (f a) (f b))
    (chain : Chain ω α) :
    (chain.valueBy item join).map f = chain.valueBy (fun a ↦ (item a).map f) join' := by
  obtain ⟨first, links⟩ := chain
  induction links using List.reverseRecOn with
  | nil => rfl
  | append_singleton links link ih =>
    rw [Chain.valueBy_append_singleton, Chain.valueBy_append_singleton, ← ih, Option.map_bind]
    cases (Chain.mk first links).valueBy item join with
    | none => rfl
    | some left =>
      cases hitem : item link.2 with
      | none => simp
      | some right => simpa [hitem] using h link.1 left right

theorem Chain.evaluate_cTreeBy (symbol : ω → String) (tree : α → C.Tree) (chain : Chain ω α) :
    C.evaluate (chain.cTreeBy symbol tree) =
      chain.valueBy (fun a ↦ C.evaluate (tree a)) fun operator a ↦ a.operate? (symbol operator) := by
  obtain ⟨first, links⟩ := chain
  induction links using List.reverseRecOn with
  | nil => rfl
  | append_singleton links link ih =>
    have htree : (Chain.mk first (links ++ [link])).cTreeBy symbol tree =
        .binary (symbol link.1) ((Chain.mk first links).cTreeBy symbol tree) (tree link.2) := by
      simp [Chain.cTreeBy]
    rw [htree, C.evaluate, ih, Chain.valueBy_append_singleton]

end

def Primary.value? : Primary → Option ℚ
  | .number spelling => some (Numeral.value spelling.toList)
  | .named _ => none

def applySign : Option Sign → ℚ → ℚ
  | some .minus, a => -a
  | some .plus, a | none, a => a

def Signed.value? (signed : Signed) : Option ℚ :=
  signed.primary.value?.map (applySign signed.sign)

/-- Multiplication and division, which has no result if the divisor is zero. -/
def Scaling.join : Scaling → ℚ → ℚ → Option ℚ
  | .times, a, b => some (a * b)
  | .divide, a, b => if b = 0 then none else some (a / b)

def Sign.join : Sign → ℚ → ℚ → Option ℚ
  | .plus, a, b => some (a + b)
  | .minus, a, b => some (a - b)

def Term.value? (term : Term) : Option ℚ :=
  term.valueBy Signed.value? Scaling.join

/-- The exact value of an expression, if it has no names and divides by zero nowhere. -/
def Expression.value? (expression : Expression) : Option ℚ :=
  expression.valueBy Term.value? Sign.join

def Primary.hasPoint : Primary → Bool
  | .number spelling => '.' ∈ spelling.toList
  | .named _ => false

/-- Whether a number in a term is written with a point. -/
def Term.hasPoint (term : Term) : Bool :=
  term.items.any (·.primary.hasPoint)

/-- The exact value of a term is a whole number. -/
def Term.IsWhole (term : Term) : Prop :=
  ∃ z : ℤ, Term.value? term = some (z : ℚ)

instance : DecidablePred Term.IsWhole := fun term ↦
  decidable_of_iff ((Term.value? term).any Rat.isInt = true) (by
    rw [Option.any_eq_true, Term.IsWhole]
    constructor
    · rintro ⟨value, hvalue, hint⟩
      exact ⟨value.num, by rw [hvalue, ← Rat.eq_num_of_isInt hint]⟩
    · rintro ⟨z, hvalue⟩
      exact ⟨z, hvalue, rfl⟩)

/-- Read from the left, a term has whole values as long as its numbers have no points: each of its
quotients of whole numbers comes out even. -/
def Term.StaysWhole (term : Term) : Prop :=
  ∀ links, links <+: term.rest → Term.hasPoint ⟨term.first, links⟩ = false →
    Term.IsWhole ⟨term.first, links⟩

instance : DecidablePred Term.StaysWhole := fun term ↦
  decidable_of_iff (∀ links ∈ term.rest.inits, Term.hasPoint ⟨term.first, links⟩ = false →
    Term.IsWhole ⟨term.first, links⟩) (by simp only [List.mem_inits]; rfl)

theorem Term.staysWhole_append_singleton (first : Signed) (links : List (Scaling × Signed))
    (link : Scaling × Signed) :
    Term.StaysWhole ⟨first, links ++ [link]⟩ ↔ Term.StaysWhole ⟨first, links⟩ ∧
      (Term.hasPoint ⟨first, links ++ [link]⟩ = false →
        Term.IsWhole ⟨first, links ++ [link]⟩) := by
  simp only [Term.StaysWhole, List.prefix_concat_iff]
  constructor
  · intro h
    exact ⟨fun prior hprior ↦ h prior (Or.inr hprior), h _ (Or.inl rfl)⟩
  · rintro ⟨hlinks, hall⟩ prior (rfl | hprior)
    · exact hall
    · exact hlinks prior hprior

theorem Term.hasPoint_append_singleton (first : Signed) (links : List (Scaling × Signed))
    (link : Scaling × Signed) :
    Term.hasPoint ⟨first, links ++ [link]⟩ =
      (Term.hasPoint ⟨first, links⟩ || link.2.primary.hasPoint) := by
  simp [Term.hasPoint, Chain.items, Bool.or_assoc]

theorem Term.StaysWhole.isWhole {term : Term} (h : Term.StaysWhole term)
    (hpoint : Term.hasPoint term = false) : Term.IsWhole term :=
  h term.rest (List.prefix_refl _) hpoint

/-! ## Values in C -/

theorem point_mem_decimalChars (spelling : List Char) :
    '.' ∈ Numeral.decimalChars spelling ↔ '.' ∈ spelling := by
  have hfront : ∀ c ∈ Numeral.trimWhole (spelling.takeWhile (· ≠ '.')), c ≠ '.' := by
    unfold Numeral.trimWhole
    split
    · simp
    · intro c hc
      have hmem := List.mem_takeWhile_imp ((List.dropWhile_suffix _).subset hc)
      simpa using hmem
  have hback : '.' ∈ spelling.dropWhile (· ≠ '.') ↔ '.' ∈ spelling := by
    constructor
    · intro h
      exact (List.dropWhile_suffix _).subset h
    · intro h
      rw [← List.takeWhile_append_dropWhile (p := (· ≠ '.')) (l := spelling), List.mem_append] at h
      rcases h with hmem | hmem
      · exact absurd (List.mem_takeWhile_imp hmem) (by simp)
      · exact hmem
  rw [Numeral.decimalChars, List.mem_append, hback]
  constructor
  · rintro (hmem | hmem)
    · exact absurd rfl (hfront '.' hmem)
    · exact hmem
  · exact Or.inr

theorem Primary.exists_evaluate {primary : Primary} (h : primary.IsSpelled) {value : ℚ}
    (hvalue : primary.value? = some value) :
    ∃ result, C.evaluate primary.cTree = some result ∧ result.toRat = value ∧
      result.isReal = primary.hasPoint := by
  cases primary with
  | named name => cases hvalue
  | number spelling =>
    obtain ⟨hconstant, _⟩ := constantValue?_decimalChars h
    rw [← C.toRat_constant?] at hconstant
    obtain ⟨result, hresult, hrat⟩ := Option.map_eq_some_iff.mp hconstant
    have hpoint := C.isReal_of_constant? hresult
    refine ⟨result, ?_, ?_, ?_⟩
    · simpa [Primary.cTree, C.evaluate, Numeral.decimal] using hresult
    · rw [hrat]
      exact Option.some.inj hvalue
    · rw [hpoint, Primary.hasPoint]
      simp only [point_mem_decimalChars]

theorem Signed.exists_evaluate {signed : Signed} (h : signed.primary.IsSpelled) {value : ℚ}
    (hvalue : signed.value? = some value) :
    ∃ result, C.evaluate signed.cTree = some result ∧ result.toRat = value ∧
      result.isReal = signed.primary.hasPoint := by
  obtain ⟨sign, primary⟩ := signed
  obtain ⟨inner, hinner, rfl⟩ := Option.map_eq_some_iff.mp hvalue
  obtain ⟨result, hresult, hrat, hreal⟩ := Primary.exists_evaluate h hinner
  match sign with
  | none => exact ⟨result, hresult, hrat, hreal⟩
  | some .plus => exact ⟨result, hresult, hrat, hreal⟩
  | some .minus =>
    refine ⟨result.negate, ?_, ?_, ?_⟩
    · simp [Signed.cTree, Sign.operator, Operator.symbol, C.evaluate, hresult]
    · rw [C.Value.toRat_negate, hrat]
      rfl
    · rw [C.Value.isReal_negate, hreal]

/-- A result of C for a term with an exact value: it is exact if the term is zero or stays whole, and
closer to zero otherwise. -/
def Approximates (result : C.Value) (value : ℚ) (staysWhole : Prop) : Prop :=
  result.toRat = value ∧ (value = 0 ∨ staysWhole) ∨ |result.toRat| < |value| ∧ ¬ staysWhole

theorem Approximates.eq_iff {result : C.Value} {value : ℚ} {staysWhole : Prop}
    (h : Approximates result value staysWhole) :
    result.toRat = value ↔ value = 0 ∨ staysWhole := by
  rcases h with ⟨heq, hexact⟩ | ⟨hlt, hwhole⟩
  · exact iff_of_true heq hexact
  · have hne : value ≠ 0 := abs_pos.mp (lt_of_le_of_lt (abs_nonneg _) hlt)
    apply iff_of_false
    · intro heq
      exact absurd (congrArg abs heq) (ne_of_lt hlt)
    · simp [hne, hwhole]

section

variable {result factor : C.Value} {value : ℚ} {staysWhole staysWhole' : Prop}

theorem Approximates.times (h : Approximates result value staysWhole)
    (hwhole : staysWhole' ↔ staysWhole) :
    Approximates (.combine (· * ·) (· * ·) result factor) (value * factor.toRat) staysWhole' := by
  have hproduct : (C.Value.combine (· * ·) (· * ·) result factor).toRat =
      result.toRat * factor.toRat := C.Value.toRat_combine (by simp) result factor
  rw [Approximates, hproduct, hwhole]
  rcases h with ⟨heq, hexact⟩ | ⟨hlt, hnot⟩
  · left
    rw [heq]
    refine ⟨rfl, hexact.imp_left fun hzero ↦ ?_⟩
    rw [hzero, zero_mul]
  · by_cases hfactor : factor.toRat = 0
    · left
      simp [hfactor]
    · right
      refine ⟨?_, hnot⟩
      rw [abs_mul, abs_mul]
      exact mul_lt_mul_of_pos_right hlt (abs_pos.mpr hfactor)

theorem Approximates.divide (h : Approximates result value staysWhole)
    (hfactor : factor.toRat ≠ 0)
    (hwhole : staysWhole' ↔ staysWhole ∧ ((result.isReal || factor.isReal) = false →
      ∃ z : ℤ, value / factor.toRat = z)) :
    Approximates (.combine Int.tdiv (· / ·) result factor) (value / factor.toRat)
      staysWhole' := by
  rw [Approximates, hwhole]
  rcases h with ⟨heq, hexact⟩ | ⟨hlt, hnot⟩
  · rw [← heq] at hexact ⊢
    by_cases heven : (result.isReal || factor.isReal) = false →
        ∃ z : ℤ, result.toRat / factor.toRat = z
    · left
      refine ⟨C.toRat_quotient hfactor heven, hexact.imp (fun hzero ↦ ?_) (fun hstays ↦ ?_)⟩
      · rw [hzero, zero_div]
      · exact ⟨hstays, heven⟩
    · right
      obtain ⟨hreal, hodd⟩ := Classical.not_imp.mp heven
      exact ⟨C.abs_toRat_quotient_lt hreal hodd, fun hstays ↦ heven hstays.2⟩
  · right
    refine ⟨?_, fun hstays ↦ hnot hstays.1⟩
    calc
      _ ≤ |result.toRat / factor.toRat| := C.abs_toRat_quotient_le result factor
      _ < |value / factor.toRat| := by
        rw [abs_div, abs_div]
        exact div_lt_div_of_pos_right hlt (abs_pos.mpr hfactor)

end

theorem Term.evaluate_append_singleton (first : Signed) (links : List (Scaling × Signed))
    (link : Scaling × Signed) :
    C.evaluate (Term.cTree ⟨first, links ++ [link]⟩) =
      (C.evaluate (Term.cTree ⟨first, links⟩)).bind fun a ↦
        (C.evaluate link.2.cTree).bind (a.operate? link.1.operator.symbol) := by
  simp only [Term.cTree, Chain.evaluate_cTreeBy, Chain.valueBy_append_singleton]

theorem Term.exists_evaluate {first : Signed} {links : List (Scaling × Signed)}
    (h : Term.IsSpelled ⟨first, links⟩) {value : ℚ}
    (hvalue : Term.value? ⟨first, links⟩ = some value) :
    ∃ result, C.evaluate (Term.cTree ⟨first, links⟩) = some result ∧
      result.isReal = Term.hasPoint ⟨first, links⟩ ∧
      Approximates result value (Term.StaysWhole ⟨first, links⟩) := by
  induction links using List.reverseRecOn generalizing value with
  | nil =>
    obtain ⟨result, hresult, hrat, hreal⟩ :=
      Signed.exists_evaluate (h first List.mem_cons_self) hvalue
    have hpoint : result.isReal = Term.hasPoint ⟨first, []⟩ := by
      simp [hreal, Term.hasPoint, Chain.items]
    refine ⟨result, hresult, hpoint, Or.inl ⟨hrat, Or.inr ?_⟩⟩
    intro links hlinks hnone
    obtain rfl : links = [] := List.prefix_nil.mp hlinks
    obtain ⟨z, hz⟩ := C.Value.exists_toRat_eq (hpoint.trans hnone)
    exact ⟨z, by rw [← hz, hrat, hvalue]⟩
  | append_singleton links link ih =>
    obtain ⟨scaling, signed⟩ := link
    have hwhole := hvalue
    rw [Term.value?, Chain.valueBy_append_singleton] at hvalue
    obtain ⟨left, hleft, hjoin⟩ := Option.bind_eq_some_iff.mp hvalue
    obtain ⟨right, hright, hjoin⟩ := Option.bind_eq_some_iff.mp hjoin
    obtain ⟨result, hresult, hreal, happroximates⟩ := ih (fun item hitem ↦ h item (by
      simp only [Chain.items, List.map_append, List.mem_cons, List.mem_append] at hitem ⊢
      tauto)) hleft
    obtain ⟨factor, hfactor, rfl, hpoint⟩ :=
      Signed.exists_evaluate (h signed (by simp [Chain.items])) hright
    rw [Term.evaluate_append_singleton, hresult, hfactor, Term.hasPoint_append_singleton, ← hreal,
      ← hpoint]
    have hstays := Term.staysWhole_append_singleton first links (scaling, signed)
    rw [Term.hasPoint_append_singleton, ← hreal, ← hpoint, Term.IsWhole, hwhole] at hstays
    cases scaling with
    | times =>
      obtain rfl : left * factor.toRat = value := Option.some.inj hjoin
      refine ⟨_, rfl, C.Value.isReal_combine _ _, happroximates.times ?_⟩
      rw [hstays, and_iff_left_iff_imp]
      intro hlinks hboth
      rw [Bool.or_eq_false_iff] at hboth
      obtain ⟨a, ha⟩ := hlinks.isWhole (hreal ▸ hboth.1)
      obtain ⟨b, hb⟩ := C.Value.exists_toRat_eq hboth.2
      have hleft' : left = a := Option.some.inj (hleft.symm.trans ha)
      exact ⟨a * b, by rw [hleft', hb, Int.cast_mul]⟩
    | divide =>
      have hdivisor : factor.toRat ≠ 0 := by
        intro hzero
        simp [Scaling.join, hzero] at hjoin
      obtain rfl : left / factor.toRat = value := by
        simpa [Scaling.join, hdivisor] using hjoin
      refine ⟨.combine Int.tdiv (· / ·) result factor, ?_, C.Value.isReal_combine _ _,
        happroximates.divide hdivisor ?_⟩
      · simp [Scaling.operator, Operator.symbol, C.Value.operate?, hdivisor]
      · simpa using hstays

theorem Expression.toRat_evaluate (expression : Expression) :
    (C.evaluate (Expression.cTree expression)).map C.Value.toRat =
      expression.valueBy (fun term ↦ (C.evaluate (Term.cTree term)).map C.Value.toRat)
        Sign.join := by
  rw [Expression.cTree, Chain.evaluate_cTreeBy]
  apply Chain.map_valueBy
  intro sign a b
  cases sign with
  | plus => exact congrArg some (C.Value.toRat_combine (by simp) a b)
  | minus => exact congrArg some (C.Value.toRat_combine (by simp) a b)

section

variable {expression : Expression} (h : Expression.IsSpelled expression) {value : ℚ}
  (hvalue : Expression.value? expression = some value)

include h hvalue

/-- The value of a term in C is exact if and only if the term is zero or stays whole. -/
theorem Expression.term_exact_iff : ∀ term ∈ expression.items,
    ((C.evaluate (Term.cTree term)).map C.Value.toRat = Term.value? term ↔
      Term.value? term = some 0 ∨ Term.StaysWhole term) := by
  intro term hterm
  obtain ⟨number, hnumber⟩ := Chain.exists_of_valueBy hvalue term hterm
  obtain ⟨result, hresult, _, happroximates⟩ := Term.exists_evaluate (h term hterm) hnumber
  rw [hresult, hnumber, Option.map_some, Option.some_inj, Option.some_inj]
  exact happroximates.eq_iff

theorem Expression.exists_evaluate :
    ∃ result, C.evaluate (Expression.cTree expression) = some result ∧
      ((∀ term ∈ expression.items, Term.value? term = some 0 ∨ Term.StaysWhole term) →
        result.toRat = value) := by
  have hterms : ∀ term ∈ expression.items,
      ∃ number, (C.evaluate (Term.cTree term)).map C.Value.toRat = some number := by
    intro term hterm
    obtain ⟨number, hnumber⟩ := Chain.exists_of_valueBy hvalue term hterm
    obtain ⟨result, hresult, _⟩ := Term.exists_evaluate (h term hterm) hnumber
    exact ⟨result.toRat, by rw [hresult]; rfl⟩
  have hjoin : ∀ sign a b, ∃ c, Sign.join sign a b = some c := by
    intro sign a b
    cases sign <;> exact ⟨_, rfl⟩
  obtain ⟨number, hnumber⟩ := Chain.exists_valueBy hjoin hterms
  rw [← Expression.toRat_evaluate] at hnumber
  obtain ⟨result, hresult, hrat⟩ := Option.map_eq_some_iff.mp hnumber
  refine ⟨result, hresult, fun hexact ↦ ?_⟩
  have hsame : expression.valueBy (fun term ↦ (C.evaluate (Term.cTree term)).map C.Value.toRat)
      Sign.join = some value := by
    rw [← hvalue]
    exact Chain.valueBy_congr fun term hterm ↦
      (Expression.term_exact_iff h hvalue term hterm).mpr (hexact term hterm)
  rw [← Expression.toRat_evaluate, hresult] at hsame
  exact Option.some.inj hsame

end

end TeenyBasic.Source

namespace TeenyBasic

open Source

/-- In every translation, each expression of the program is written in a line, and C reads it as its
tree. If the expression has an exact value, it has a value in C. The value of a term is the same in
C if and only if the term is zero or stays whole, and the value of the expression is the same if
this holds for all its terms. -/
theorem keepsValue_iff_of_compile (options : Options) (source file : String)
    (compilation : Compilation) (h : options.compile source file = .ok compilation) :
    ∃ (program : Program) (names : List String),
      program.Derives (Cursor.stream (Cursor.start file source)).tokens ∧
      compilation.text = closedLines (Generate.prologue ++ names.map declarationLine ++
        program.lines options.numberFormat ++ Generate.epilogue) ∧
      ∀ expression ∈ program.expressions,
        (∃ line ∈ program.lines options.numberFormat, expression.IsWrittenIn line) ∧
        (∃ tokens, C.split (Expression.text expression).toList = some tokens ∧
          ∀ tree, C.Derives C.Level.expression tokens tree ↔ tree = Expression.cTree expression) ∧
        ∀ value, Expression.value? expression = some value →
          (∃ result, C.evaluate (Expression.cTree expression) = some result ∧
            ((∀ term ∈ expression.items, Term.value? term = some 0 ∨ Term.StaysWhole term) →
              result.toRat = value)) ∧
          ∀ term ∈ expression.items,
            ((C.evaluate (Term.cTree term)).map C.Value.toRat = Term.value? term ↔
              Term.value? term = some 0 ∨ Term.StaysWhole term) := by
  obtain ⟨program, names, hderives, htext, hspelled, hnames⟩ := exists_derivation_of_compile h
  refine ⟨program, names, hderives, htext, ?_⟩
  intro expression hexpression
  have hstands := Program.standsIn_of_expression program hexpression
  have hspelled' := hstands.isSpelled hspelled
  have hunreserved : Unreserved (Expression.mentions expression) := fun mention hmention ↦
    hnames mention (hstands.names_subset hmention)
  exact ⟨hstands.exists_line options.numberFormat,
    ⟨_, (Expression.reads hspelled' C.stops_nil).split_eq,
      Expression.cDerives_iff hspelled' hunreserved⟩,
    fun value hvalue ↦ ⟨Expression.exists_evaluate hspelled' hvalue,
      Expression.term_exact_iff hspelled' hvalue⟩⟩

def unsigned (spelling : String) : Signed := ⟨none, .number spelling⟩

/-- A term with a quotient that comes out even before a number with a point. -/
def evenQuotient : Expression :=
  ⟨⟨unsigned "6", [(.divide, unsigned "3"), (.divide, unsigned "0.5")]⟩,
    [(.minus, ⟨unsigned "1", []⟩)]⟩

theorem keepsValue_iff_of_compile_even :
    ∃ (compilation : Compilation) (program : Program) (result : C.Value),
      Options.standard.compile "PRINT 6 / 3 / 0.5 - 1" "" = .ok compilation ∧
      program.Derives (Cursor.stream (Cursor.start "" "PRINT 6 / 3 / 0.5 - 1")).tokens ∧
      evenQuotient ∈ program.expressions ∧ Expression.text evenQuotient = "6/3/0.5-1" ∧
      Expression.value? evenQuotient = some 3 ∧
      C.evaluate (Expression.cTree evenQuotient) = some result ∧ result.toRat = 3 := by
  have hcompile : Options.standard.compile "PRINT 6 / 3 / 0.5 - 1" "" =
      .ok ⟨"", ⟨"#include <stdio.h>\nint main(int argc, char *argv[]) \x7b\n",
        "printf(\"%.2f\\n\", (float)(6/3/0.5-1));\nreturn 0;\n\x7d\n"⟩, [], [], 10⟩ := by
    decide +kernel
  have htokens : (Cursor.stream (Cursor.start "" "PRINT 6 / 3 / 0.5 - 1")).tokens =
      [⟨.keyword .PRINT, "PRINT", ⟨"", 1, 1⟩⟩, ⟨.number, "6", ⟨"", 1, 7⟩⟩,
       ⟨.operator .divide, "/", ⟨"", 1, 9⟩⟩, ⟨.number, "3", ⟨"", 1, 11⟩⟩,
       ⟨.operator .divide, "/", ⟨"", 1, 13⟩⟩, ⟨.number, "0.5", ⟨"", 1, 15⟩⟩,
       ⟨.operator .minus, "-", ⟨"", 1, 19⟩⟩, ⟨.number, "1", ⟨"", 1, 21⟩⟩,
       ⟨.newline, "\n", ⟨"", 1, 22⟩⟩, ⟨.endOfInput, "", ⟨"", 2, 1⟩⟩] := by
    decide +kernel
  have hprint : Program.Derives [.print evenQuotient]
      (Cursor.stream (Cursor.start "" "PRINT 6 / 3 / 0.5 - 1")).tokens := by
    rw [htokens]
    refine ⟨[], [_, _, _, _, _, _, _, _, _], _, rfl, by simp,
      ⟨[_, _, _, _, _, _, _, _], [_], [], rfl, ⟨_, [_, _, _, _, _, _, _], rfl, rfl, ?_⟩,
        by simp [IsLineEnd], rfl⟩, rfl⟩
    refine ⟨[_, _, _, _, _], [_, _], rfl, ?_,
      ⟨_, [_], [], rfl, rfl, ⟨[_], [], rfl, ⟨_, rfl, rfl, rfl⟩, rfl⟩, rfl⟩⟩
    exact ⟨[_], [_, _, _, _], rfl, ⟨_, rfl, rfl, rfl⟩,
      ⟨_, [_], [_, _], rfl, rfl, ⟨_, rfl, rfl, rfl⟩,
        ⟨_, [_], [], rfl, rfl, ⟨_, rfl, rfl, rfl⟩, rfl⟩⟩⟩
  obtain ⟨program, _, hderives, _, hexpressions⟩ :=
    keepsValue_iff_of_compile Options.standard "PRINT 6 / 3 / 0.5 - 1" "" _ hcompile
  obtain rfl := Program.eq_of_derives hderives hprint
  have hmem : evenQuotient ∈ Program.expressions [.print evenQuotient] := List.mem_cons_self
  have hvalue : Expression.value? evenQuotient = some 3 := by decide +kernel
  obtain ⟨⟨result, hresult, hexact⟩, _⟩ := (hexpressions evenQuotient hmem).2.2 3 hvalue
  exact ⟨_, _, result, hcompile, hderives, hmem, by decide +kernel, hvalue, hresult,
    hexact (by decide +kernel)⟩

def half : Expression := ⟨⟨unsigned "1", [(.divide, unsigned "2")]⟩, []⟩

/-- A quotient of numbers without points is accepted, and C cuts it off. -/
theorem evaluate_half_eq_zero :
    ∃ (compilation : Compilation) (tokens : List C.Token),
      Options.standard.compile "PRINT 1 / 2" "" = .ok compilation ∧
      compilation.text = closedLines (Generate.prologue ++
        ["printf(\"%.2f\\n\", (float)(1/2));"] ++ Generate.epilogue) ∧
      C.split "1/2".toList = some tokens ∧
      (∀ tree, C.Derives C.Level.expression tokens tree ↔ tree = Expression.cTree half) ∧
      Expression.value? half = some (1 / 2) ∧
      C.evaluate (Expression.cTree half) = some (.whole 0) := by
  have hcompile : Options.standard.compile "PRINT 1 / 2" "" =
      .ok ⟨"", ⟨"#include <stdio.h>\nint main(int argc, char *argv[]) \x7b\n",
        "printf(\"%.2f\\n\", (float)(1/2));\nreturn 0;\n\x7d\n"⟩, [], [], 6⟩ := by
    decide +kernel
  have hspelled : Expression.IsSpelled half := by
    have hdigit : ∀ spelling ∈ ["1", "2"], Primary.IsSpelled (.number spelling) := by
      intro spelling hmem
      rcases List.mem_pair.mp hmem with rfl | rfl <;> exact Or.inl (by decide)
    simpa [half, unsigned, Expression.IsSpelled, Term.IsSpelled, Chain.items] using hdigit
  have hnames : Unreserved (Expression.mentions half) := by
    unfold Unreserved
    decide
  have hsplit := (Expression.reads hspelled C.stops_nil).split_eq
  exact ⟨_, _, hcompile, by decide +kernel, hsplit, Expression.cDerives_iff hspelled hnames,
    by decide +kernel, by decide +kernel⟩

end TeenyBasic
