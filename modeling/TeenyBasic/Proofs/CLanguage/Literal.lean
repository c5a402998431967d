import TeenyBasic.Proofs.CLanguage.Lexis

/-!
# Literals and trigraphs

Before C divides a text into tokens, it replaces trigraphs: two question marks and a third character
that together stand for one other character. One of them stands for a backslash, so a text without
backslashes may come to hold some, and a literal with a backslash in it is only read if the
characters behind the backslash are an escape.

The main statements are `withoutTrigraphs_append_cons`, on where a text may be cut before its
trigraphs are replaced, and `Reads.quoted_append` and `split_quoted`, on which literals are read.
-/

namespace TeenyBasic.C

open Text.Quoted

/-- The character that a character stands for behind two question marks. -/
def trigraph? : Char → Option Char
  | '=' => some '#'
  | '/' => some backslash
  | '\x27' => some '^'
  | '(' => some '['
  | ')' => some ']'
  | '!' => some '|'
  | '<' => some '\x7b'
  | '>' => some '\x7d'
  | '-' => some '~'
  | _ => none

/-- Replaces every trigraph of a text, from left to right. -/
def withoutTrigraphs : List Char → List Char
  | [] => []
  | [c] => [c]
  | [c, d] => [c, d]
  | c :: d :: e :: rest =>
    if c = '?' && d = '?' then
      match trigraph? e with
      | some replacement => replacement :: withoutTrigraphs rest
      | none => c :: withoutTrigraphs (d :: e :: rest)
    else c :: withoutTrigraphs (d :: e :: rest)

/-- A text without question marks, which has no trigraphs. -/
def Plain (text : List Char) : Prop := ∀ c ∈ text, c ≠ '?'

instance : DecidablePred Plain := fun text ↦
  decidable_of_iff (text.all (· ≠ '?') = true) (by simp [Plain])

@[simp] theorem plain_nil : Plain [] := by
  simp [Plain]

@[simp] theorem plain_cons {c : Char} {text : List Char} :
    Plain (c :: text) ↔ c ≠ '?' ∧ Plain text := by
  simp [Plain]

@[simp] theorem plain_append {a b : List Char} : Plain (a ++ b) ↔ Plain a ∧ Plain b := by
  simp [Plain, or_imp, forall_and]

theorem withoutTrigraphs_cons {c : Char} (h : c ≠ '?') (rest : List Char) :
    withoutTrigraphs (c :: rest) = c :: withoutTrigraphs rest := by
  match rest with
  | [] => rfl
  | [d] => rfl
  | d :: e :: rest => simp [withoutTrigraphs, h]

theorem withoutTrigraphs_append {text : List Char} (h : Plain text) (rest : List Char) :
    withoutTrigraphs (text ++ rest) = text ++ withoutTrigraphs rest := by
  induction text with
  | nil => rfl
  | cons c tail ih =>
    obtain ⟨hc, htail⟩ := plain_cons.mp h
    rw [List.cons_append, withoutTrigraphs_cons hc, ih htail, List.cons_append]

theorem withoutTrigraphs_cons_cons {c : Char} (h : c ≠ '?') (d : Char) (rest : List Char) :
    withoutTrigraphs (d :: c :: rest) = d :: c :: withoutTrigraphs rest := by
  have hnext := withoutTrigraphs_cons h rest
  cases rest with
  | nil => rfl
  | cons e rest =>
    rw [← hnext]
    simp [withoutTrigraphs, h]

theorem withoutTrigraphs_append_cons {c : Char} (hmark : c ≠ '?') (hthird : trigraph? c = none)
    (text rest : List Char) :
    withoutTrigraphs (text ++ c :: rest) =
      withoutTrigraphs text ++ c :: withoutTrigraphs rest := by
  fun_induction withoutTrigraphs text with
  | case1 => exact withoutTrigraphs_cons hmark rest
  | case2 d => exact withoutTrigraphs_cons_cons hmark d rest
  | case3 d e =>
    have hnext := withoutTrigraphs_cons_cons hmark e rest
    simp [withoutTrigraphs, hthird, hnext]
  | case4 d e third rest' htest replacement htrigraph ih =>
    simp [withoutTrigraphs, htest, htrigraph, ih]
  | case5 d e third rest' htest htrigraph ih =>
    rw [List.cons_append, List.cons_append] at ih
    simp [withoutTrigraphs, htest, htrigraph, ih]
  | case6 d e third rest' htest ih =>
    rw [List.cons_append, List.cons_append] at ih
    simp [withoutTrigraphs, htest, ih]

theorem mem_withoutTrigraphs {text : List Char} {c : Char} (h : c ∈ withoutTrigraphs text) :
    c ∈ text ∨ ∃ third, trigraph? third = some c := by
  fun_induction withoutTrigraphs text with
  | case1 => exact Or.inl h
  | case2 d => exact Or.inl h
  | case3 d e => exact Or.inl h
  | case4 d e third rest htest replacement htrigraph ih =>
    rcases List.mem_cons.mp h with rfl | h
    · exact Or.inr ⟨third, htrigraph⟩
    · rcases ih h with hmem | hthird
      · left
        simp [hmem]
      · exact Or.inr hthird
  | case5 d e third rest htest htrigraph ih =>
    rcases List.mem_cons.mp h with rfl | h
    · exact Or.inl List.mem_cons_self
    · rcases ih h with hmem | hthird
      · exact Or.inl (List.mem_cons_of_mem _ hmem)
      · exact Or.inr hthird
  | case6 d e third rest htest ih =>
    rcases List.mem_cons.mp h with rfl | h
    · exact Or.inl List.mem_cons_self
    · rcases ih h with hmem | hthird
      · exact Or.inl (List.mem_cons_of_mem _ hmem)
      · exact Or.inr hthird

theorem trigraph?_plain {third c : Char} (h : trigraph? third = some c) :
    c ≠ doubleQuote ∧ c ≠ '\n' := by
  unfold trigraph? at h
  split at h <;> cases h <;> decide

/-- Decides whether every backslash of a text starts an escape that stands within the text. -/
def escapesFit : List Char → Bool
  | [] => true
  | c :: rest =>
    if c = backslash then
      match rest with
      | [] => false
      | _ :: tail => isEscape rest && escapesFit tail
    else escapesFit rest

/-- Hexadecimal digits that are asked for do not reach over a character that is none. -/
theorem take_all_isHexadecimal {quote : Char} (h : isHexadecimal quote = false) (n : Nat)
    (text rest : List Char) :
    (((text ++ quote :: rest).take n).length = n &&
        ((text ++ quote :: rest).take n).all isHexadecimal) =
      ((text.take n).length = n && (text.take n).all isHexadecimal) := by
  rcases Nat.lt_or_ge text.length n with hshort | hlong
  · have hmem : quote ∈ (text ++ quote :: rest).take n := by
      obtain ⟨more, rfl⟩ := Nat.exists_eq_add_of_lt hshort
      rw [Nat.add_assoc, List.take_length_add_append]
      simp
    have hnot : ((text ++ quote :: rest).take n).all isHexadecimal = false := by
      rw [List.all_eq_false]
      exact ⟨quote, hmem, by simp [h]⟩
    have hlength : (text.take n).length ≠ n := by
      rw [List.length_take]
      omega
    rw [hnot, Bool.and_false, decide_eq_false hlength, Bool.false_and]
  · rw [List.take_append_of_le_length hlong]

theorem isEscape_append {quote : Char} (h : isHexadecimal quote = false) (c : Char)
    (text rest : List Char) :
    isEscape (c :: (text ++ quote :: rest)) = isEscape (c :: text) := by
  have hhead : (text ++ quote :: rest).head?.any isHexadecimal = text.head?.any isHexadecimal := by
    cases text with
    | nil => simp [h]
    | cons d tail => rfl
  have hfour := take_all_isHexadecimal h 4 text rest
  have height := take_all_isHexadecimal h 8 text rest
  simp only [isEscape, Bool.and_assoc, hhead, hfour, height]

theorem literalBody_quote (quote : Char) (rest : List Char) :
    literalBody quote (quote :: rest) = some [] := by
  unfold literalBody
  rw [if_pos rfl]

theorem literalBody_plain {quote c : Char} (hquote : c ≠ quote) (hline : c ≠ '\n')
    (hescape : c ≠ backslash) (rest : List Char) :
    literalBody quote (c :: rest) = (literalBody quote rest).map (c :: ·) := by
  conv => lhs; unfold literalBody
  rw [if_neg hquote, if_neg hline, if_neg hescape]

theorem literalBody_escape {quote : Char} (hquote : backslash ≠ quote) (c : Char)
    (rest : List Char) :
    literalBody quote (backslash :: c :: rest) =
      if isEscape (c :: rest) then
        (literalBody quote rest).map fun body ↦ backslash :: c :: body
      else none := by
  conv => lhs; unfold literalBody
  rw [if_neg hquote, if_neg (by decide), if_pos rfl]

/-- The characters of a text can be put between quotation marks: neither the mark nor a line end is
among them, and no backslash comes to stand before the closing mark. -/
structure Quotable (quote : Char) (text : List Char) : Prop where
  forall_ne : ∀ c ∈ text, c ≠ quote ∧ c ≠ '\n'
  last_ne : text.getLast? ≠ some backslash

instance (quote : Char) : DecidablePred (Quotable quote) := fun text ↦
  decidable_of_iff
    (text.all (fun c ↦ c ≠ quote && c ≠ '\n') = true ∧ text.getLast? ≠ some backslash) (by
      rw [List.all_eq_true]
      constructor
      · rintro ⟨hall, hlast⟩
        exact ⟨fun c hc ↦ by simpa using hall c hc, hlast⟩
      · rintro ⟨hall, hlast⟩
        exact ⟨fun c hc ↦ by simpa using hall c hc, hlast⟩)

theorem Quotable.of_cons {quote c : Char} {text : List Char} (h : Quotable quote (c :: text)) :
    Quotable quote text where
  forall_ne := fun d hd ↦ h.forall_ne d (List.mem_cons_of_mem _ hd)
  last_ne := fun hlast ↦ h.last_ne (by simp [List.getLast?_cons, hlast])

/-- The characters of a literal are read up to its closing mark if its escapes fit, and not at all
otherwise. -/
theorem literalBody_append {quote : Char} {text rest : List Char} (hquote : isQuote quote = true)
    (h : Quotable quote text) :
    literalBody quote (text ++ quote :: rest) = if escapesFit text then some text else none := by
  have hhexadecimal : isHexadecimal quote = false := by
    simp only [isQuote, Bool.or_eq_true, decide_eq_true_eq] at hquote
    rcases hquote with rfl | rfl <;> decide
  fun_induction escapesFit text with
  | case1 => exact literalBody_quote quote rest
  | case2 => exact absurd rfl h.last_ne
  | case3 c tail ih =>
    have hne := (h.forall_ne backslash List.mem_cons_self).1
    rw [List.cons_append, List.cons_append, literalBody_escape hne,
      isEscape_append hhexadecimal, ih h.of_cons.of_cons]
    cases isEscape (c :: tail) <;> cases escapesFit tail <;> rfl
  | case4 c tail hc ih =>
    obtain ⟨hne, hline⟩ := h.forall_ne c List.mem_cons_self
    rw [List.cons_append, literalBody_plain hne hline hc, ih h.of_cons]
    cases escapesFit tail <;> rfl

theorem escapesFit_append {text : List Char} (h : ∀ c ∈ text, c ≠ backslash) (rest : List Char) :
    escapesFit (text ++ rest) = escapesFit rest := by
  induction text with
  | nil => rfl
  | cons c tail ih =>
    have htail := ih fun d hd ↦ h d (List.mem_cons_of_mem _ hd)
    rw [List.cons_append, escapesFit.eq_def]
    simp only [if_neg (h c List.mem_cons_self), htail]

/-- The token of a literal between double quotes. -/
def Token.quoted (body : List Char) : Token :=
  .literal false doubleQuote (String.ofList body)

section

variable {body : List Char} (hbody : Quotable doubleQuote body)

include hbody

theorem front_doubleQuote (rest : List Char) :
    front doubleQuote (body ++ doubleQuote :: rest) =
      if escapesFit body then some (some (.quoted body), body.length + 1) else none := by
  have hread : literalBody doubleQuote (body ++ doubleQuote :: rest) = _ :=
    literalBody_append rfl hbody
  rw [front, if_neg (by decide), if_neg (by simp [doubleQuote]), if_neg (by simp [doubleQuote]),
    if_pos (by decide), hread]
  cases escapesFit body <;> rfl

theorem Reads.quoted_append {text rest : List Char} {tokens : List Token}
    (hfits : escapesFit body = true) (h : Reads text tokens rest) :
    Reads (doubleQuote :: (body ++ doubleQuote :: text)) (.quoted body :: tokens) rest := by
  have hfirst : Reads (doubleQuote :: (body ++ [doubleQuote])) [.quoted body] (text ++ rest) := by
    apply reads_of_token
    rw [List.append_assoc, List.singleton_append, front_doubleQuote hbody, if_pos hfits,
      List.length_append, List.length_singleton]
  simpa using hfirst.append h

/-- A text with a literal in front whose escapes do not fit cannot be divided. -/
theorem split_quoted (hfits : escapesFit body = false) (rest : List Char) :
    split (doubleQuote :: (body ++ doubleQuote :: rest)) = none := by
  apply split_of_none
  rw [front_doubleQuote hbody, hfits]
  rfl

end

/-- A piece of text is divided into tokens, whatever follows, or keeps any text that it starts from
being divided. -/
def Divides (text : List Char) (fits : Bool) (tokens : List Token) : Prop :=
  ∀ rest, split (withoutTrigraphs (text ++ rest)) =
    if fits then (split (withoutTrigraphs rest)).map (tokens ++ ·) else none

theorem divides_nil : Divides [] true [] := by
  intro rest
  simp

theorem Divides.append {a b : List Char} {fits fits' : Bool} {tokens tokens' : List Token}
    (ha : Divides a fits tokens) (hb : Divides b fits' tokens') :
    Divides (a ++ b) (fits && fits') (tokens ++ tokens') := by
  intro rest
  rw [List.append_assoc, ha, hb]
  cases fits <;> cases fits' <;> simp [Function.comp_def]

theorem divides_of_reads {text : List Char} {tokens : List Token} (htext : Plain text)
    (h : ∀ rest, Reads text tokens rest) : Divides text true tokens := by
  intro rest
  rw [withoutTrigraphs_append htext, if_pos rfl]
  exact h _

end TeenyBasic.C
