import TeenyBasic.Proofs.CLanguage.Constant
import TeenyBasic.Proofs.CLanguage.Literal
import TeenyBasic.Proofs.Text.Encoding

/-!
# What a format prints

A literal stands for bytes: a character for its encoding, and an escape for a byte or for the
encoding of the character that it names. The function `printf` takes these bytes as a format, which
ends at its first null byte. A format without percent signs is printed as it stands.

An escape always takes up more characters than it stands for bytes, and a trigraph more than the one
character it stands for. So a literal that is written with either prints less than is written in it,
and `length_literalBytes_lt` and `withoutTrigraphs_eq_of_length_le` say that this can be told from
the number of bytes alone.
-/

namespace TeenyBasic.C

open Text.Quoted Text.Utf8

/-- The byte that a character stands for directly behind a backslash. -/
def simpleEscape? (c : Char) : Option UInt8 :=
  [(doubleQuote, 34), (apostrophe, 39), ('?', 63), (backslash, 92), ('a', 7), ('b', 8), ('f', 12),
    ('n', 10), ('r', 13), ('t', 9), ('v', 11)].lookup c

def hexadecimalValue (c : Char) : Nat :=
  if c.isDigit then digitValue c else c.toLower.toNat - 'a'.toNat + 10

def hexadecimal (digits : List Char) : Nat :=
  digits.foldl (fun value c ↦ value * 16 + hexadecimalValue c) 0

/-- A byte, given by a value that must not exceed it. -/
def byte? (value : Nat) : Option (List UInt8) :=
  if value < 256 then some [UInt8.ofNat value] else none

/-- The encoding of a character that may be given by its code point. -/
def universal? (value : Nat) : Option (List UInt8) :=
  if value.isValidChar ∧ (0xA0 ≤ value ∨ value = 0x24 ∨ value = 0x40 ∨ value = 0x60) then
    some (String.utf8EncodeChar (Char.ofNat value))
  else none

/-- The bytes that the digits of a code point stand for, if there are as many as are asked for, and
the number of characters with the letter in front of them. -/
def universalEscape? (count : Nat) (rest : List Char) : Option (List UInt8 × Nat) :=
  let digits := rest.take count
  if digits.length = count ∧ digits.all isHexadecimal then
    (universal? (hexadecimal digits)).map fun bytes ↦ (bytes, count + 1)
  else none

/-- The bytes that the characters behind a backslash stand for, and the number of characters that
belong to the escape. -/
def escape? (text : List Char) : Option (List UInt8 × Nat) :=
  match text with
  | [] => none
  | c :: rest =>
    match simpleEscape? c with
    | some byte => some ([byte], 1)
    | none =>
      if isOctal c then
        let digits := rest.take 2 |>.takeWhile isOctal
        (byte? (wholeValue 8 (c :: digits))).map fun bytes ↦ (bytes, digits.length + 1)
      else if c = 'x' then
        let digits := rest.takeWhile isHexadecimal
        if digits = [] then none
        else (byte? (hexadecimal digits)).map fun bytes ↦ (bytes, digits.length + 1)
      else if c = 'u' then universalEscape? 4 rest
      else if c = 'U' then universalEscape? 8 rest
      else none

/-- The bytes that the characters of a literal stand for, after as many characters as belong to an
escape that has been decoded. -/
def bytesAfter : Nat → List Char → Option (List UInt8)
  | _, [] => some []
  | skip + 1, _ :: rest => bytesAfter skip rest
  | 0, c :: rest =>
    if c = backslash then
      match escape? rest with
      | none => none
      | some (bytes, length) => (bytesAfter length rest).map (bytes ++ ·)
    else (bytesAfter 0 rest).map (String.utf8EncodeChar c ++ ·)

/-- The bytes that the characters of a literal stand for. -/
def literalBytes (body : List Char) : Option (List UInt8) :=
  bytesAfter 0 body

/-- What is printed for a format that asks for no conversion. -/
def printed? (format : List UInt8) : Option (List UInt8) :=
  let text := format.takeWhile (· ≠ 0)
  if '%'.toUInt8 ∈ text then none else some text

/-- What a text prints if it is one call of `printf` with a format and nothing else. -/
def callOutput? (text : List Char) : Option (List UInt8) :=
  match split (withoutTrigraphs text) with
  | some [.word "printf", .mark "(", .literal false quote body, .mark ")", .mark ";"] =>
    if quote = doubleQuote then (literalBytes body.toList).bind printed? else none
  | _ => none

theorem length_of_byte? {value : Nat} {bytes : List UInt8} (h : byte? value = some bytes) :
    bytes.length = 1 := by
  unfold byte? at h
  split at h
  · cases h
    rfl
  · cases h

theorem length_le_of_universalEscape? {count : Nat} (hcount : 4 ≤ count) {rest : List Char}
    {bytes : List UInt8} {length : Nat} (h : universalEscape? count rest = some (bytes, length)) :
    bytes.length ≤ length ∧ length ≤ rest.length + 1 := by
  simp only [universalEscape?] at h
  split at h
  · rename_i hdigits
    have hrest : count ≤ rest.length := by
      have hlength := hdigits.1
      rw [List.length_take] at hlength
      omega
    obtain ⟨_, hbytes, heq⟩ := Option.map_eq_some_iff.mp h
    cases heq
    unfold universal? at hbytes
    split at hbytes
    · cases hbytes
      have hencoding := length_utf8EncodeChar_le (Char.ofNat (hexadecimal (rest.take count)))
      omega
    · cases hbytes
  · cases h

theorem length_le_of_escape? {text : List Char} {bytes : List UInt8} {length : Nat}
    (h : escape? text = some (bytes, length)) : bytes.length ≤ length ∧ length ≤ text.length := by
  cases text with
  | nil => cases h
  | cons c rest =>
    simp only [escape?] at h
    rw [List.length_cons]
    split at h
    · cases h
      simp
    split at h
    · obtain ⟨_, hbytes, heq⟩ := Option.map_eq_some_iff.mp h
      cases heq
      have hdigits := (List.takeWhile_prefix isOctal (l := rest.take 2)).length_le
      rw [length_of_byte? hbytes]
      rw [List.length_take] at hdigits
      omega
    split at h
    · split at h
      · cases h
      · obtain ⟨_, hbytes, heq⟩ := Option.map_eq_some_iff.mp h
        cases heq
        have hdigits := (List.takeWhile_prefix isHexadecimal (l := rest)).length_le
        rw [length_of_byte? hbytes]
        omega
    split at h
    · exact length_le_of_universalEscape? (by decide) h
    split at h
    · exact length_le_of_universalEscape? (by decide) h
    · cases h

theorem length_bytesAfter_le {skip : Nat} {text : List Char} {bytes : List UInt8}
    (hskip : skip ≤ text.length) (h : bytesAfter skip text = some bytes) :
    bytes.length + skip ≤ (encode text).length := by
  induction text generalizing skip bytes with
  | nil =>
    have hbytes : bytes = [] := by simpa [bytesAfter, eq_comm] using h
    have hzero : skip = 0 := Nat.le_zero.mp hskip
    simp [hbytes, hzero]
  | cons c rest ih =>
    have hc := length_utf8EncodeChar_pos c
    rw [encode_cons, List.length_append]
    rw [List.length_cons] at hskip
    cases skip with
    | succ skip =>
      have hrest := ih (by omega) h
      omega
    | zero =>
      rw [bytesAfter] at h
      split at h
      · split at h
        · cases h
        · rename_i front length hescape
          obtain ⟨later, hlater, rfl⟩ := Option.map_eq_some_iff.mp h
          obtain ⟨hfront, hlength⟩ := length_le_of_escape? hescape
          have hrest := ih hlength hlater
          rw [List.length_append]
          omega
      · obtain ⟨later, hlater, rfl⟩ := Option.map_eq_some_iff.mp h
        have hrest := ih (Nat.zero_le _) hlater
        rw [List.length_append]
        omega

theorem length_literalBytes_lt {text : List Char} (htext : backslash ∈ text) {bytes : List UInt8}
    (h : literalBytes text = some bytes) : bytes.length < (encode text).length := by
  induction text generalizing bytes with
  | nil => simp at htext
  | cons c rest ih =>
    have hc := length_utf8EncodeChar_pos c
    rw [encode_cons, List.length_append]
    rw [literalBytes, bytesAfter] at h
    split at h
    · split at h
      · cases h
      · rename_i front length hescape
        obtain ⟨later, hlater, rfl⟩ := Option.map_eq_some_iff.mp h
        obtain ⟨hfront, hlength⟩ := length_le_of_escape? hescape
        have hrest := length_bytesAfter_le hlength hlater
        rw [List.length_append]
        omega
    · rename_i hne
      obtain ⟨later, hlater, rfl⟩ := Option.map_eq_some_iff.mp h
      have hmem : backslash ∈ rest := (List.mem_cons.mp htext).resolve_left (Ne.symm hne)
      have hrest := ih hmem hlater
      rw [List.length_append]
      omega

theorem literalBytes_append {text : List Char} (h : ∀ c ∈ text, c ≠ backslash)
    (rest : List Char) :
    literalBytes (text ++ rest) = (literalBytes rest).map (encode text ++ ·) := by
  induction text with
  | nil => simp
  | cons c text ih =>
    have htext := ih fun d hd ↦ h d (List.mem_cons_of_mem _ hd)
    unfold literalBytes at htext ⊢
    rw [List.cons_append, bytesAfter, if_neg (h c List.mem_cons_self), htext, Option.map_map]
    simp [Function.comp_def]

theorem length_utf8EncodeChar_of_trigraph? {third c : Char} (h : trigraph? third = some c) :
    (String.utf8EncodeChar c).length = 1 := by
  unfold trigraph? at h
  split at h <;> cases h <;> rfl

/-- A text without trigraphs stays as it is, and any other becomes shorter. -/
theorem withoutTrigraphs_eq_or_lt (text : List Char) :
    withoutTrigraphs text = text ∨
      (encode (withoutTrigraphs text)).length < (encode text).length := by
  fun_induction withoutTrigraphs text with
  | case1 => exact Or.inl rfl
  | case2 c => exact Or.inl rfl
  | case3 c d => exact Or.inl rfl
  | case4 c d e rest htest replacement htrigraph ih =>
    have hreplacement := length_utf8EncodeChar_of_trigraph? htrigraph
    have hc := length_utf8EncodeChar_pos c
    have hd := length_utf8EncodeChar_pos d
    right
    simp only [encode_cons, List.length_append]
    rcases ih with heq | hlt
    · rw [heq]
      omega
    · omega
  | case5 c d e rest htest htrigraph ih =>
    rcases ih with heq | hlt
    · exact Or.inl (by rw [heq])
    · right
      rw [encode_cons, encode_cons, List.length_append, List.length_append]
      omega
  | case6 c d e rest htest ih =>
    rcases ih with heq | hlt
    · exact Or.inl (by rw [heq])
    · right
      rw [encode_cons, encode_cons, List.length_append, List.length_append]
      omega

theorem length_le_of_printed? {format text : List UInt8} (h : printed? format = some text) :
    text.length ≤ format.length := by
  simp only [printed?] at h
  split at h
  · cases h
  · cases h
    exact (List.takeWhile_prefix _).length_le

/-- The encoding of a text without percent signs is printed as a whole if and only if the text holds
no null character. -/
theorem printed?_encode_iff {text : List Char} (h : '%' ∉ text) :
    printed? (encode text) = some (encode text) ↔ '\x00' ∉ text := by
  have hpercent : '%'.toUInt8 ∉ encode text := fun hmem ↦ h ((mem_encode_iff (by decide)).mp hmem)
  have hnull : 0 ∈ encode text ↔ '\x00' ∈ text := mem_encode_iff (c := '\x00') (by decide)
  have htake : '%'.toUInt8 ∉ (encode text).takeWhile (· ≠ 0) :=
    fun hmem ↦ hpercent ((List.takeWhile_subset _) hmem)
  simp only [printed?, if_neg htake, Option.some.injEq, List.takeWhile_eq_self_iff,
    decide_eq_true_eq, ← hnull]
  exact ⟨fun hall hmem ↦ hall 0 hmem rfl, fun hnone byte hmem heq ↦ hnone (heq ▸ hmem)⟩

end TeenyBasic.C
