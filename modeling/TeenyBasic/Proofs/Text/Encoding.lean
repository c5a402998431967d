import TeenyBasic.Text.Utf8

/-!
# Encoded text

Each character is encoded as one to four bytes, and only ASCII characters as bytes below 128.

The bytes that a text is encoded as are read as that text again. A character of one byte is read at
once; the first byte of any other character begins it with the bits that the byte carries, and each
byte after it lies in the interval that is owed and brings six more bits, until the whole code point
is there. The first bytes E0 and F0, behind which the interval starts later, and ED and F4, behind
which it ends earlier, are met exactly by the code points that respect these bounds, since an
encoding is never longer than necessary and no character is a surrogate.

The main statement is `decode_encode`.
-/

namespace TeenyBasic.Text.Utf8

theorem toNat_ofNat_of_lt {n : Nat} (h : n < 256) : (UInt8.ofNat n).toNat = n := by
  rw [UInt8.toNat_ofNat', Nat.mod_eq_of_lt h]

theorem length_utf8EncodeChar_pos (c : Char) : 0 < (String.utf8EncodeChar c).length := by
  rw [String.length_utf8EncodeChar]
  exact c.utf8Size_pos

theorem length_utf8EncodeChar_le (c : Char) : (String.utf8EncodeChar c).length ≤ 4 := by
  rw [String.length_utf8EncodeChar]
  exact c.utf8Size_le_four

@[simp] theorem encode_nil : encode [] = [] := rfl

@[simp] theorem encode_cons (c : Char) (text : List Char) :
    encode (c :: text) = String.utf8EncodeChar c ++ encode text := by
  simp [encode]

@[simp] theorem encode_append (a b : List Char) : encode (a ++ b) = encode a ++ encode b := by
  simp [encode]

theorem le_of_mem_utf8EncodeChar {c : Char} (hc : 128 ≤ c.toNat) {byte : UInt8}
    (h : byte ∈ String.utf8EncodeChar c) : 128 ≤ byte.toNat := by
  have hval : c.val.toNat = c.toNat := rfl
  have hlarge {n : Nat} (hlow : 128 ≤ n) (hhigh : n < 256) : 128 ≤ (UInt8.ofNat n).toNat := by
    rwa [toNat_ofNat_of_lt hhigh]
  simp only [String.utf8EncodeChar, hval] at h
  rw [if_neg (by omega)] at h
  split at h
  · simp only [List.mem_cons, List.not_mem_nil, or_false] at h
    rcases h with rfl | rfl <;> exact hlarge (by omega) (by omega)
  split at h
  · simp only [List.mem_cons, List.not_mem_nil, or_false] at h
    rcases h with rfl | rfl | rfl <;> exact hlarge (by omega) (by omega)
  · simp only [List.mem_cons, List.not_mem_nil, or_false] at h
    rcases h with rfl | rfl | rfl | rfl <;> exact hlarge (by omega) (by omega)

theorem utf8EncodeChar_of_lt {c : Char} (hc : c.toNat < 128) :
    String.utf8EncodeChar c = [UInt8.ofNat c.toNat] := by
  have hval : c.val.toNat = c.toNat := rfl
  simp only [String.utf8EncodeChar, hval]
  exact if_pos (by omega)

/-- The encoding of a text holds the byte of an ASCII character exactly if the text holds the
character. -/
theorem mem_encode_iff {c : Char} (hc : c.toNat < 128) {text : List Char} :
    UInt8.ofNat c.toNat ∈ encode text ↔ c ∈ text := by
  have hbound := toNat_ofNat_of_lt (Nat.lt_trans hc (by decide))
  constructor
  · intro h
    obtain ⟨d, hd, hbyte⟩ := List.mem_flatMap.mp h
    have hsmall : d.toNat < 128 := by
      rcases Nat.lt_or_ge d.toNat 128 with hlt | hge
      · exact hlt
      · have hlarge := le_of_mem_utf8EncodeChar hge hbyte
        omega
    rw [utf8EncodeChar_of_lt hsmall, List.mem_singleton] at hbyte
    have heq := congrArg UInt8.toNat hbyte
    rw [hbound, toNat_ofNat_of_lt (Nat.lt_trans hsmall (by decide))] at heq
    obtain rfl : c = d := Char.toNat_inj.mp heq
    exact hd
  · intro h
    refine List.mem_flatMap.mpr ⟨c, h, ?_⟩
    rw [utf8EncodeChar_of_lt hc]
    exact List.mem_singleton_self _

/-- A byte behind the first one, with the lowest six bits of a number. -/
def trailing (v : Nat) : UInt8 := UInt8.ofNat (v % 64 + 128)

theorem toNat_trailing (v : Nat) : (trailing v).toNat = v % 64 + 128 :=
  toNat_ofNat_of_lt (by omega)

/-- Decides whether a begun character accepts the next byte, which is given by its bits. -/
def Partial.Accepts (p : Partial) (v : Nat) : Prop :=
  p.next.1 ≤ v % 64 + 128 ∧ v % 64 + 128 ≤ p.next.2

theorem accepts_of_continuation {p : Partial} (h : p.next = continuation) (v : Nat) :
    p.Accepts v := by
  have hbound : v % 64 < 64 := Nat.mod_lt _ (by decide)
  simp only [Partial.Accepts, h, continuation]
  omega

theorem decodeFrom_last {p : Partial} {v : Nat} (hnext : p.Accepts v) (hlater : p.later = [])
    (position : Nat) (rest : List UInt8) :
    decodeFrom position (some p) (trailing v :: rest) =
      (Char.ofNat (p.bits * 64 + v % 64) :: ·) <$> decodeFrom (position + 1) none rest := by
  unfold Partial.Accepts at hnext
  simp only [decodeFrom, toNat_trailing, hnext, hlater, and_self, if_true, Nat.add_sub_cancel]

/-- A byte that is not the last one brings six bits. -/
theorem decodeFrom_more {p : Partial} {v : Nat} (hnext : p.Accepts v) {next : Nat × Nat}
    {later : List (Nat × Nat)} (hlater : p.later = next :: later) (position : Nat)
    (rest : List UInt8) :
    decodeFrom position (some p) (trailing v :: rest) =
      decodeFrom (position + 1) (some { p with bits := p.bits * 64 + v % 64, next, later })
        rest := by
  unfold Partial.Accepts at hnext
  simp only [decodeFrom, toNat_trailing, hnext, hlater, and_self, if_true, Nat.add_sub_cancel]

theorem decodeFrom_first {byte : UInt8} {position : Nat} {p : Partial} (hbyte : 128 ≤ byte.toNat)
    (h : begin position byte = some p) (rest : List UInt8) :
    decodeFrom position none (byte :: rest) = decodeFrom (position + 1) (some p) rest := by
  have hlarge : ¬ byte < 0x80 := by
    rw [UInt8.lt_iff_toNat_lt]
    exact Nat.not_lt.mpr hbyte
  rw [decodeFrom, if_neg hlarge, h]

theorem exists_begin_two {v : Nat} (hlow : 0x80 ≤ v) (hhigh : v < 0x800) (position : Nat) :
    ∃ p, begin position (UInt8.ofNat (v / 64 + 0xC0)) = some p ∧ p.bits = v / 64 ∧ p.Accepts v ∧
      p.later = [] := by
  have hbyte : (UInt8.ofNat (v / 64 + 0xC0)).toNat = v / 64 + 0xC0 :=
    toNat_ofNat_of_lt (by omega)
  simp only [begin, hbyte]
  rw [if_pos (by omega)]
  exact ⟨_, rfl, by simp, accepts_of_continuation rfl v, rfl⟩

theorem exists_begin_three {v : Nat} (hlow : 0x800 ≤ v) (hhigh : v < 0x10000)
    (hscalar : v < 0xD800 ∨ 0xDFFF < v) (position : Nat) :
    ∃ p, begin position (UInt8.ofNat (v / 4096 + 0xE0)) = some p ∧ p.bits = v / 4096 ∧
      p.Accepts (v / 64) ∧ p.later = [continuation] := by
  have hbyte : (UInt8.ofNat (v / 4096 + 0xE0)).toNat = v / 4096 + 0xE0 :=
    toNat_ofNat_of_lt (by omega)
  simp only [begin, hbyte]
  rw [if_neg (by omega)]
  split
  · exact ⟨_, rfl, by simp only; omega, by simp only [Partial.Accepts]; omega, rfl⟩
  split
  · exact ⟨_, rfl, by simp only; omega, by simp only [Partial.Accepts]; omega, rfl⟩
  rw [if_pos (by omega)]
  exact ⟨_, rfl, by simp, accepts_of_continuation rfl _, rfl⟩

theorem exists_begin_four {v : Nat} (hlow : 0x10000 ≤ v) (hhigh : v < 0x110000) (position : Nat) :
    ∃ p, begin position (UInt8.ofNat (v / 262144 + 0xF0)) = some p ∧ p.bits = v / 262144 ∧
      p.Accepts (v / 4096) ∧ p.later = [continuation, continuation] := by
  have hbyte : (UInt8.ofNat (v / 262144 + 0xF0)).toNat = v / 262144 + 0xF0 :=
    toNat_ofNat_of_lt (by omega)
  simp only [begin, hbyte]
  rw [if_neg (by omega), if_neg (by omega), if_neg (by omega), if_neg (by omega)]
  split
  · exact ⟨_, rfl, by simp only; omega, by simp only [Partial.Accepts]; omega, rfl⟩
  split
  · exact ⟨_, rfl, by simp only; omega, by simp only [Partial.Accepts]; omega, rfl⟩
  rw [if_pos (by omega)]
  exact ⟨_, rfl, by simp, accepts_of_continuation rfl _, rfl⟩

theorem exists_decodeFrom_utf8EncodeChar (position : Nat) (c : Char) (rest : List UInt8) :
    ∃ after, decodeFrom position none (String.utf8EncodeChar c ++ rest) =
      (c :: ·) <$> decodeFrom after none rest := by
  have hscalar : c.toNat < 0xD800 ∨ 0xDFFF < c.toNat ∧ c.toNat < 0x110000 := c.valid
  have hchar : ∀ {v}, v = c.toNat → Char.ofNat v = c := fun hv ↦ hv ▸ Char.ofNat_toNat c
  have hval : c.val.toNat = c.toNat := rfl
  have htrailing (v : Nat) : UInt8.ofNat (v % 64 + 128) = trailing v := rfl
  simp only [String.utf8EncodeChar, hval, htrailing]
  generalize c.toNat = v at hscalar hchar
  split
  · have hbyte : (UInt8.ofNat v).toNat = v := toNat_ofNat_of_lt (by omega)
    have hsmall : UInt8.ofNat v < 0x80 := by
      rw [UInt8.lt_iff_toNat_lt, hbyte]
      exact Nat.lt_succ_of_le ‹_›
    exact ⟨_, by rw [List.singleton_append, decodeFrom, if_pos hsmall, hchar hbyte]⟩
  split
  · obtain ⟨p, hbegin, hbits, haccepts, hlater⟩ :=
      exists_begin_two (v := v) (by omega) (by omega) position
    have hfirst := toNat_ofNat_of_lt (n := v / 64 + 0xC0) (by omega)
    rw [Nat.mod_eq_of_lt (by omega : v / 64 < 32)]
    refine ⟨position + 1 + 1, ?_⟩
    rw [List.cons_append, decodeFrom_first (by omega) hbegin, List.cons_append,
      decodeFrom_last haccepts hlater, hchar (by rw [hbits]; omega), List.nil_append]
  split
  · obtain ⟨p, hbegin, hbits, haccepts, hlater⟩ :=
      exists_begin_three (v := v) (by omega) (by omega) (by omega) position
    have hfirst := toNat_ofNat_of_lt (n := v / 4096 + 0xE0) (by omega)
    rw [Nat.mod_eq_of_lt (by omega : v / 4096 < 16)]
    refine ⟨position + 1 + 1 + 1, ?_⟩
    rw [List.cons_append, decodeFrom_first (by omega) hbegin, List.cons_append,
      decodeFrom_more haccepts hlater, List.cons_append,
      decodeFrom_last (accepts_of_continuation rfl _) rfl, hchar (by simp only [hbits]; omega),
      List.nil_append]
  · obtain ⟨p, hbegin, hbits, haccepts, hlater⟩ :=
      exists_begin_four (v := v) (by omega) (by omega) position
    have hfirst := toNat_ofNat_of_lt (n := v / 262144 + 0xF0) (by omega)
    rw [Nat.mod_eq_of_lt (by omega : v / 262144 < 8)]
    refine ⟨position + 1 + 1 + 1 + 1, ?_⟩
    rw [List.cons_append, decodeFrom_first (by omega) hbegin, List.cons_append,
      decodeFrom_more haccepts hlater, List.cons_append,
      decodeFrom_more (accepts_of_continuation rfl _) rfl, List.cons_append,
      decodeFrom_last (accepts_of_continuation rfl _) rfl, hchar (by simp only [hbits]; omega),
      List.nil_append]

theorem decodeFrom_encode (position : Nat) (text : List Char) :
    decodeFrom position none (encode text) = .ok text := by
  induction text generalizing position with
  | nil => simp [encode, decodeFrom]
  | cons c text ih =>
    obtain ⟨after, hafter⟩ := exists_decodeFrom_utf8EncodeChar position c (encode text)
    rw [encode, List.flatMap_cons, ← encode, hafter, ih]
    rfl

/-- What a text is encoded as is read as that text. -/
theorem decode_encode (text : List Char) : decode (encode text) = .ok text :=
  decodeFrom_encode 0 text

end TeenyBasic.Text.Utf8
