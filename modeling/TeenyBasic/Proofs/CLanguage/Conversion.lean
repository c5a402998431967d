import TeenyBasic.Proofs.CLanguage.Expression
import TeenyBasic.Proofs.CLanguage.Format

/-!
# Directives of a format

The function `printf` reads its format byte by byte up to the first null byte. A percent sign starts
a directive: flags, a width, a precision, a modifier and a letter that says what is made of an
argument. A width is a decimal number or an asterisk, which stands for a further argument, and so is
what follows the point of a precision; the digits are those of ASCII. A format with a percent sign
that starts no directive has no meaning.

The main statements are `flatMap_text_of_itemsAfter`, that the items of a format are all that is
written in it and that directives are written in ASCII, and `directive?_of_isNumeric`, that a
directive for numbers is read where it is written.
-/

namespace TeenyBasic.C

open Text.Utf8

/-- Decides whether a character is a flag of a directive. -/
def isFlag (c : Char) : Bool :=
  ['-', '+', ' ', '#', '0'].contains c

/-- The modifiers, longer ones before those that they start with. -/
def modifiers : List (List Char) :=
  [['h', 'h'], ['l', 'l'], ['h'], ['l'], ['j'], ['z'], ['t'], ['L']]

/-- The letters that a directive can end with. -/
def specifiers : List Char :=
  ['d', 'i', 'o', 'u', 'x', 'X', 'f', 'F', 'e', 'E', 'g', 'G', 'a', 'A', 'c', 's', 'p', 'n', '%']

/-- A directive by its parts, as they are written behind the percent sign. The precision starts with
its point. -/
structure Directive where
  flags : List Char
  width : List Char
  precision : List Char
  modifier : List Char
  specifier : Char
  deriving DecidableEq, Repr

/-- What is written behind the percent sign. -/
def Directive.text (d : Directive) : List Char :=
  d.flags ++ (d.width ++ (d.precision ++ (d.modifier ++ [d.specifier])))

/-- The number of arguments that a directive consumes. -/
def Directive.arguments (d : Directive) : Nat :=
  d.width.count '*' + d.precision.count '*' + if d.specifier = '%' then 0 else 1

/-- The number that a text starts with, or an asterisk in its place. -/
def amount : List Char → List Char
  | '*' :: _ => ['*']
  | text => text.takeWhile Char.isDigit

/-- The precision that a text starts with. -/
def precision : List Char → List Char
  | '.' :: rest => '.' :: amount rest
  | _ => []

/-- The modifier that a text starts with. -/
def modifier (text : List Char) : List Char :=
  (modifiers.find? fun modifier ↦ modifier.isPrefixOf text).getD []

/-- The directive that is written behind a percent sign. -/
def directive? (text : List Char) : Option Directive :=
  let flags := text.takeWhile isFlag
  let behindFlags := text.drop flags.length
  let width := amount behindFlags
  let behindWidth := behindFlags.drop width.length
  let precision := precision behindWidth
  let behindPrecision := behindWidth.drop precision.length
  let modifier := modifier behindPrecision
  match behindPrecision.drop modifier.length with
  | [] => none
  | c :: _ => if specifiers.contains c then some ⟨flags, width, precision, modifier, c⟩ else none

/-- What a format is made of. -/
inductive Item where
  /-- A byte that is printed as it stands. -/
  | plain (c : Char)
  | directive (d : Directive)
  deriving DecidableEq, Repr

/-- What is written for an item. -/
def Item.text : Item → List Char
  | .plain c => [c]
  | .directive d => '%' :: d.text

/-- The items of a text, after as many characters as belong to a directive that has been read. -/
def itemsAfter : Nat → List Char → Option (List Item)
  | _, [] => some []
  | skip + 1, _ :: rest => itemsAfter skip rest
  | 0, c :: rest =>
    if c = '%' then
      match directive? rest with
      | none => none
      | some d => (itemsAfter d.text.length rest).map (.directive d :: ·)
    else (itemsAfter 0 rest).map (.plain c :: ·)

/-- The characters that bytes stand for, one by one. -/
def byteChars (bytes : List UInt8) : List Char :=
  bytes.map fun byte ↦ Char.ofNat byte.toNat

/-- The items of a format, if it has a meaning. -/
def formatItems? (format : List UInt8) : Option (List Item) :=
  itemsAfter 0 (byteChars (format.takeWhile (· ≠ 0)))

/-- A text is one call of `printf` with a format and one argument behind it, an expression that no
comma divides. -/
def IsFormattedCall (text : List Char) (items : List Item) (argument : Tree) : Prop :=
  ∃ body tokens format,
    split (withoutTrigraphs text) = some (.word "printf" :: .mark "(" :: .quoted body ::
      .mark "," :: (tokens ++ [.mark ")", .mark ";"])) ∧
    Derives Level.assignment tokens argument ∧
    literalBytes body = some format ∧ formatItems? format = some items

theorem amount_isPrefix (text : List Char) : amount text <+: text := by
  unfold amount
  split
  · exact List.prefix_append _ _
  · exact List.takeWhile_prefix _

theorem precision_isPrefix (text : List Char) : precision text <+: text := by
  unfold precision
  split
  · exact (List.prefix_cons_inj _).mpr (amount_isPrefix _)
  · exact List.nil_prefix

theorem modifier_isPrefix (text : List Char) : modifier text <+: text := by
  unfold modifier
  cases hfind : modifiers.find? fun modifier ↦ modifier.isPrefixOf text with
  | none => exact List.nil_prefix
  | some found =>
    have hfound := List.find?_some hfind
    exact List.isPrefixOf_iff_prefix.mp hfound

theorem text_isPrefix_of_directive? {text : List Char} {d : Directive}
    (h : directive? text = some d) : d.text <+: text := by
  simp only [directive?] at h
  split at h
  · cases h
  rename_i c rest hrest
  split at h
  · cases h
    have hflags := List.prefix_iff_eq_append.mp (List.takeWhile_prefix isFlag (l := text))
    generalize text.drop (text.takeWhile isFlag).length = sized at hflags hrest ⊢
    have hwidth := List.prefix_iff_eq_append.mp (amount_isPrefix sized)
    generalize sized.drop (amount sized).length = behind at hwidth hrest ⊢
    have hprecision := List.prefix_iff_eq_append.mp (precision_isPrefix behind)
    generalize behind.drop (precision behind).length = last at hprecision hrest ⊢
    have hmodifier := List.prefix_iff_eq_append.mp (modifier_isPrefix last)
    rw [hrest] at hmodifier
    refine ⟨rest, ?_⟩
    simp only [Directive.text, List.append_assoc, List.singleton_append]
    rw [hmodifier, hprecision, hwidth, hflags]
  · cases h

def IsAscii (c : Char) : Prop := c.toNat < 128

instance : DecidablePred IsAscii := fun c ↦ Nat.decLt c.toNat 128

theorem isAscii_of_isDigit {c : Char} (h : c.isDigit = true) : IsAscii c := by
  simp only [Char.isDigit, Bool.and_eq_true, decide_eq_true_eq, UInt32.le_iff_toNat_le] at h
  have hbound : c.toNat ≤ 57 := h.2
  unfold IsAscii
  omega

theorem isAscii_of_isFlag {c : Char} (h : isFlag c = true) : IsAscii c := by
  have hall : ∀ d ∈ ['-', '+', ' ', '#', '0'], IsAscii d := by simp [IsAscii]
  exact hall c (by simpa [isFlag] using h)

theorem isAscii_of_mem_amount {text : List Char} : ∀ c ∈ amount text, IsAscii c := by
  unfold amount
  split
  · simp [IsAscii]
  · exact fun c hc ↦ isAscii_of_isDigit (List.mem_takeWhile_imp hc)

theorem isAscii_of_mem_precision {text : List Char} : ∀ c ∈ precision text, IsAscii c := by
  unfold precision
  split
  · intro c hc
    rcases List.mem_cons.mp hc with rfl | hc
    · decide
    · exact isAscii_of_mem_amount c hc
  · simp

theorem isAscii_of_mem_modifier {text : List Char} : ∀ c ∈ modifier text, IsAscii c := by
  have hall : ∀ modifier ∈ modifiers, ∀ c ∈ modifier, IsAscii c := by simp [modifiers, IsAscii]
  unfold modifier
  cases hfind : modifiers.find? fun modifier ↦ modifier.isPrefixOf text with
  | none => simp
  | some found => exact hall found (List.mem_of_find?_eq_some hfind)

theorem isAscii_of_directive? {text : List Char} {d : Directive} (h : directive? text = some d) :
    ∀ c ∈ d.text, IsAscii c := by
  have hspecifiers : ∀ c ∈ specifiers, IsAscii c := by simp [specifiers, IsAscii]
  simp only [directive?] at h
  split at h
  · cases h
  rename_i last rest _
  split at h
  · rename_i hlast
    cases h
    simp only [Directive.text, List.forall_mem_append, List.forall_mem_singleton]
    exact ⟨fun c hc ↦ isAscii_of_isFlag (List.mem_takeWhile_imp hc), isAscii_of_mem_amount,
      isAscii_of_mem_precision, isAscii_of_mem_modifier,
      hspecifiers last (by simpa using hlast)⟩
  · cases h

theorem byteChars_encode {text : List Char} (h : ∀ c ∈ text, IsAscii c) :
    byteChars (encode text) = text := by
  induction text with
  | nil => rfl
  | cons c rest ih =>
    obtain ⟨hc, hrest⟩ := List.forall_mem_cons.mp h
    have hbyte : (UInt8.ofNat c.toNat).toNat = c.toNat :=
      toNat_ofNat_of_lt (Nat.lt_trans hc (by decide))
    have htail : (encode rest).map (fun byte ↦ Char.ofNat byte.toNat) = rest := ih hrest
    rw [encode_cons, utf8EncodeChar_of_lt hc, byteChars, List.map_append, htail]
    simp [hbyte]

theorem isAscii_of_byteChars {text : List Char} (h : ∀ c ∈ byteChars (encode text), IsAscii c) :
    ∀ c ∈ text, IsAscii c := by
  intro c hc
  by_contra hlarge
  obtain ⟨byte, hbyte⟩ := List.exists_mem_of_length_pos (length_utf8EncodeChar_pos c)
  have hbound := le_of_mem_utf8EncodeChar (Nat.le_of_not_lt hlarge) hbyte
  have hmem : Char.ofNat byte.toNat ∈ byteChars (encode text) :=
    List.mem_map_of_mem (List.mem_flatMap_of_mem hc hbyte)
  have hascii := h _ hmem
  have hvalue : (Char.ofNat byte.toNat).toNat = byte.toNat := by
    have hvalid : byte.toNat.isValidChar := Or.inl (Nat.lt_trans byte.toNat_lt (by decide))
    rw [Char.ofNat, dif_pos hvalid]
    rfl
  rw [IsAscii, hvalue] at hascii
  omega

theorem takeWhile_encode {text : List Char} (h : '\x00' ∉ text) :
    (encode text).takeWhile (· ≠ 0) = encode text := by
  have hnull : 0 ∉ encode text := fun hmem ↦ h ((mem_encode_iff (c := '\x00') (by decide)).mp hmem)
  rw [List.takeWhile_eq_self_iff]
  intro byte hbyte
  simpa using fun heq : byte = 0 ↦ hnull (heq ▸ hbyte)

/-- The items of a text are what is written in it, and its directives are written in ASCII. -/
theorem flatMap_text_of_itemsAfter {skip : Nat} {text : List Char} {items : List Item}
    (hskip : skip ≤ text.length) (h : itemsAfter skip text = some items) :
    items.flatMap Item.text = text.drop skip ∧
      ∀ d, .directive d ∈ items → ∀ c ∈ d.text, IsAscii c := by
  induction text generalizing skip items with
  | nil =>
    obtain rfl : items = [] := by simpa [itemsAfter, eq_comm] using h
    simp
  | cons c rest ih =>
    rw [List.length_cons] at hskip
    cases skip with
    | succ skip => exact ih (by omega) h
    | zero =>
      rw [itemsAfter] at h
      split at h
      · rename_i hpercent
        split at h
        · cases h
        · rename_i d hdirective
          obtain ⟨later, hlater, rfl⟩ := Option.map_eq_some_iff.mp h
          have hfront := text_isPrefix_of_directive? hdirective
          obtain ⟨hwritten, hascii⟩ := ih hfront.length_le hlater
          refine ⟨?_, ?_⟩
          · rw [List.flatMap_cons, hwritten, Item.text, hpercent, List.cons_append,
              List.prefix_iff_eq_append.mp hfront]
            rfl
          · intro d' hd'
            rcases List.mem_cons.mp hd' with heq | hd'
            · cases heq
              exact isAscii_of_directive? hdirective
            · exact hascii d' hd'
      · obtain ⟨later, hlater, rfl⟩ := Option.map_eq_some_iff.mp h
        obtain ⟨hwritten, hascii⟩ := ih (Nat.zero_le _) hlater
        refine ⟨by simp [hwritten, Item.text], ?_⟩
        intro d hd
        exact hascii d (by simpa using hd)

theorem itemsAfter_eq_drop (skip : Nat) (text : List Char) :
    itemsAfter skip text = itemsAfter 0 (text.drop skip) := by
  induction text generalizing skip with
  | nil => simp [itemsAfter]
  | cons c rest ih =>
    cases skip with
    | zero => rfl
    | succ skip => exact ih skip

theorem itemsAfter_directive {d : Directive} {last : Char}
    (h : directive? (d.text ++ [last]) = some d) (hlast : last ≠ '%') :
    itemsAfter 0 ('%' :: (d.text ++ [last])) = some [.directive d, .plain last] := by
  rw [itemsAfter, if_pos rfl, h]
  dsimp only
  rw [itemsAfter_eq_drop, List.drop_left]
  simp [itemsAfter, hlast]

/-- A precision is a point and decimal digits, or nothing. -/
def IsPrecision (text : List Char) : Prop :=
  text = [] ∨ ∃ digits, text = '.' :: digits ∧ ∀ c ∈ digits, c.isDigit = true

/-- A directive that shows one argument as a number with a point: it has no modifier, takes nothing
from further arguments, and its letter is an f. -/
structure Directive.IsNumeric (d : Directive) : Prop where
  flags : ∀ c ∈ d.flags, isFlag c = true
  width : ∀ c ∈ d.width, c.isDigit = true
  precision : IsPrecision d.precision
  modifier : d.modifier = []
  specifier : d.specifier = 'f'

/-- A format that is one directive for numbers: a percent sign, flags, digits for the width, perhaps
a point and digits for the precision, and the letter f. -/
def IsNumericConversion (format : List Char) : Prop :=
  ∃ d : Directive, d.IsNumeric ∧ format = '%' :: d.text

theorem Directive.IsNumeric.isAscii {d : Directive} (h : d.IsNumeric) :
    ∀ c ∈ d.text, IsAscii c := by
  have hprecision : ∀ c ∈ d.precision, IsAscii c := by
    rcases h.precision with hnil | ⟨digits, hdigits, hall⟩
    · simp [hnil]
    · rw [hdigits, List.forall_mem_cons]
      exact ⟨by decide, fun c hc ↦ isAscii_of_isDigit (hall c hc)⟩
  simp only [Directive.text, List.forall_mem_append, List.forall_mem_singleton, h.modifier,
    h.specifier]
  exact ⟨fun c hc ↦ isAscii_of_isFlag (h.flags c hc), fun c hc ↦ isAscii_of_isDigit (h.width c hc),
    hprecision, by simp, by decide⟩

theorem isDigit_ne_star {text : List Char} (h : ∀ c ∈ text, c.isDigit = true) : '*' ∉ text := by
  intro hmem
  have hstar := h _ hmem
  revert hstar
  decide

theorem Directive.IsNumeric.arguments_eq {d : Directive} (h : d.IsNumeric) : d.arguments = 1 := by
  have hprecision : '*' ∉ d.precision := by
    rcases h.precision with hnil | ⟨digits, hdigits, hall⟩
    · simp [hnil]
    · simpa [hdigits] using isDigit_ne_star hall
  have hwidth := List.count_eq_zero_of_not_mem (isDigit_ne_star h.width)
  rw [Directive.arguments, hwidth, List.count_eq_zero_of_not_mem hprecision, h.specifier]
  decide

theorem amount_append {digits rest : List Char} (h : ∀ c ∈ digits, c.isDigit = true)
    (hrest : ∀ c ∈ rest.head?, c.isDigit = false) (hstar : rest.head? ≠ some '*') :
    amount (digits ++ rest) = digits := by
  have hne : ∀ tail, digits ++ rest ≠ '*' :: tail := by
    intro tail heq
    cases digits with
    | nil => exact hstar (by rw [← List.nil_append rest, heq]; rfl)
    | cons first digits =>
      obtain ⟨rfl, _⟩ := List.cons.inj heq
      exact isDigit_ne_star h List.mem_cons_self
  rw [amount.eq_2 _ hne, Lexeme.takeWhile_append_of_stops h hrest]

theorem IsPrecision.precision_append {text : List Char} (h : IsPrecision text)
    (rest : List Char) : precision (text ++ 'f' :: rest) = text := by
  rcases h with rfl | ⟨digits, rfl, hdigits⟩
  · rfl
  · rw [List.cons_append, precision, amount_append hdigits (by simp) (by simp)]

theorem IsPrecision.exists_head {text : List Char} (h : IsPrecision text) (rest : List Char) :
    ∃ c tail, text ++ 'f' :: rest = c :: tail ∧ (c = '.' ∨ c = 'f') := by
  rcases h with rfl | ⟨digits, rfl, _⟩
  · exact ⟨'f', rest, rfl, Or.inr rfl⟩
  · exact ⟨'.', digits ++ 'f' :: rest, rfl, Or.inl rfl⟩

theorem isFlag_of_isDigit {c : Char} (h : c.isDigit = true) (hzero : c ≠ '0') :
    isFlag c = false := by
  have hother : ∀ d ∈ ['-', '+', ' ', '#'], c ≠ d := by
    rintro d hd rfl
    revert hd h
    simp only [List.mem_cons, List.not_mem_nil, or_false]
    rintro hdigit (rfl | rfl | rfl | rfl) <;> cases hdigit
  simp_all [isFlag]

/-- A directive for numbers is read where it is written, if no zero that could be a flag stands at
the front of its width. -/
theorem directive?_of_isNumeric {d : Directive} (h : d.IsNumeric)
    (hzero : d.width.head? ≠ some '0') (rest : List Char) :
    directive? (d.text ++ rest) = some d := by
  obtain ⟨flags, width, precision, modifier, specifier⟩ := d
  obtain ⟨hflags, hwidth, hprecision, rfl, rfl⟩ := h
  dsimp only at hflags hwidth hprecision hzero
  have htext : Directive.text ⟨flags, width, precision, [], 'f'⟩ ++ rest =
      flags ++ (width ++ (precision ++ 'f' :: rest)) := by
    simp [Directive.text]
  obtain ⟨c, tail, hbehind, hc⟩ := hprecision.exists_head rest
  have hstop : ∀ first ∈ (width ++ (precision ++ 'f' :: rest)).head?, isFlag first = false := by
    intro first hfirst
    cases width with
    | nil =>
      rw [List.nil_append, hbehind] at hfirst
      cases hfirst
      rcases hc with rfl | rfl <;> rfl
    | cons digit digits =>
      cases hfirst
      exact isFlag_of_isDigit (hwidth _ List.mem_cons_self) (by simpa using hzero)
  have hamount : amount (width ++ (precision ++ 'f' :: rest)) = width := by
    refine amount_append hwidth ?_ ?_ <;> rw [hbehind] <;> rcases hc with rfl | rfl <;> simp
  have hmodifier : C.modifier ('f' :: rest) = [] := rfl
  simp only [directive?]
  rw [htext, Lexeme.takeWhile_append_of_stops hflags hstop, List.drop_left, hamount, List.drop_left,
    hprecision.precision_append, List.drop_left, hmodifier]
  rfl

end TeenyBasic.C
