import BindingRelease.Text.Percent
/-!
Reading percent-encoded segments. The reader takes letters, digits, `_.-~` and escapes of two
hexadecimal digits and nothing else, and what the encoder wrote it reads back, for every text. So
different texts have different segments, and no segment ends early or begins a query or a fragment.
-/
namespace BindingRelease.Text

def isPlainLetter (c : Char) : Bool :=
  c.isAlphanum || ['_', '.', '-', '~'].contains c

def percentDecode : List Char → Option (List UInt8)
  | [] => some []
  | c :: cs =>
    if c = '%' then
      match cs with
      | hi :: lo :: rest => do
        let h ← hexValue? hi
        let l ← hexValue? lo
        (percentDecode rest).map (UInt8.ofNat (16 * h + l) :: ·)
      | _ => none
    else if isPlainLetter c then (percentDecode cs).map (UInt8.ofNat c.toNat :: ·)
    else none

/-- The text that a segment of an address stands for, if it is one. -/
def ofSegment? (segment : String) : Option String :=
  (percentDecode segment.toList).bind fun bs => String.fromUTF8? bs.toByteArray

section Letters
variable {c : Char}

theorem isAlphanum_iff :
    c.isAlphanum ↔ ('A' ≤ c ∧ c ≤ 'Z' ∨ 'a' ≤ c ∧ c ≤ 'z') ∨ '0' ≤ c ∧ c ≤ '9' := by
  have h : c.isAlphanum = ((decide ('A' ≤ c ∧ c ≤ 'Z') ||
      (decide ('a' ≤ c) && decide (c ≤ 'z'))) || (decide ('0' ≤ c) && decide (c ≤ '9'))) := rfl
  simp only [h, Bool.or_eq_true, Bool.and_eq_true, decide_eq_true_eq]

theorem isUnreserved_iff : isUnreserved c ↔ isPlainLetter c := by
  simp only [isUnreserved, isPlainLetter, isAlphanum_iff, List.contains_cons, List.contains_nil,
    Bool.or_eq_true, Bool.and_eq_true, decide_eq_true_eq, beq_iff_eq]
  grind

theorem plainLetter_bounds (h : isPlainLetter c) : c.toNat < 128 ∧ c ≠ '%' := by
  simp only [isPlainLetter, Bool.or_eq_true, List.contains_iff_mem, List.mem_cons,
    List.not_mem_nil, or_false] at h
  rcases h with h | rfl | rfl | rfl | rfl
  · simp only [isAlphanum_iff, Char.le_def, UInt32.le_iff_toNat_le] at h
    have hval : c.toNat = c.val.toNat := rfl
    have hZ : 'Z'.val.toNat = 90 := rfl
    have hz : 'z'.val.toNat = 122 := rfl
    have hA : 'A'.val.toNat = 65 := rfl
    have ha : 'a'.val.toNat = 97 := rfl
    have h0 : '0'.val.toNat = 48 := rfl
    have h9 : '9'.val.toNat = 57 := rfl
    refine ⟨by omega, ?_⟩
    rintro rfl
    have hpercent : '%'.val.toNat = 37 := rfl
    omega
  all_goals decide

theorem utf8EncodeChar_of_lt (h : c.toNat < 128) :
    String.utf8EncodeChar c = [UInt8.ofNat c.toNat] := by
  have hval : c.val.toNat ≤ 127 := Nat.le_of_lt_succ h
  simp only [String.utf8EncodeChar, if_pos hval]
  rfl

theorem isPlainLetter_of_hexValue {n : Nat} (h : hexValue? c = some n) : isPlainLetter c := by
  have halphanum : c.isAlphanum := by
    simp only [hexValue?, isAsciiDigit, Bool.and_eq_true, decide_eq_true_eq, Char.le_def,
      UInt32.le_iff_toNat_le] at h
    simp only [isAlphanum_iff, Char.le_def, UInt32.le_iff_toNat_le]
    have hF : 'F'.val.toNat = 70 := rfl
    have hf : 'f'.val.toNat = 102 := rfl
    have hZ : 'Z'.val.toNat = 90 := rfl
    have hz : 'z'.val.toNat = 122 := rfl
    split at h
    · omega
    · split at h
      · omega
      · split at h
        · omega
        · cases h
  simp [isPlainLetter, halphanum]

end Letters

theorem hexValue_upperHexDigit {n : Nat} (h : n < 16) : hexValue? (upperHexDigit n) = some n := by
  have hall : ∀ k : Fin 16, hexValue? (upperHexDigit k) = some k.val := by decide
  exact hall ⟨n, h⟩

theorem percentDecode_letter {c : Char} (h : isPlainLetter c) (cs : List Char) :
    percentDecode (c :: cs) = (percentDecode cs).map (UInt8.ofNat c.toNat :: ·) := by
  rw [percentDecode.eq_def]
  simp only [if_neg (plainLetter_bounds h).2, if_pos h]

theorem percentDecode_byte (b : UInt8) (cs : List Char) :
    percentDecode (percentByte b ++ cs) = (percentDecode cs).map (b :: ·) := by
  have hb : b.toNat < 256 := b.toNat_lt
  have hhi : hexValue? (upperHexDigit (b.toNat / 16)) = some (b.toNat / 16) :=
    hexValue_upperHexDigit (by omega)
  have hlo : hexValue? (upperHexDigit (b.toNat % 16)) = some (b.toNat % 16) :=
    hexValue_upperHexDigit (by omega)
  have hsum : UInt8.ofNat (16 * (b.toNat / 16) + b.toNat % 16) = b := by
    rw [Nat.div_add_mod, UInt8.ofNat_toNat]
  simp only [percentByte, List.cons_append, List.nil_append, percentDecode, if_pos, hhi, hlo,
    Option.bind_eq_bind, Option.bind_some, hsum]

theorem percentDecode_bytes (bs : List UInt8) (cs : List Char) :
    percentDecode (bs.flatMap percentByte ++ cs) = (percentDecode cs).map (bs ++ ·) := by
  induction bs with
  | nil => simp
  | cons b bs ih =>
    rw [List.flatMap_cons, List.append_assoc, percentDecode_byte, ih, Option.map_map]
    rfl

theorem percentDecode_char (c : Char) (cs : List Char) :
    percentDecode (percentChar c ++ cs) =
      (percentDecode cs).map (String.utf8EncodeChar c ++ ·) := by
  by_cases h : isUnreserved c
  · have hplain : isPlainLetter c := isUnreserved_iff.mp h
    rw [utf8EncodeChar_of_lt (plainLetter_bounds hplain).1]
    simp [percentChar, h, percentDecode_letter hplain]
  · rw [percentChar, if_neg h, percentDecode_bytes]

theorem percentDecode_chars (cs : List Char) :
    percentDecode (cs.flatMap percentChar) = some (cs.flatMap String.utf8EncodeChar) := by
  induction cs with
  | nil => rfl
  | cons c cs ih => simp [percentDecode_char, ih]

theorem ofSegment_percentEncode (s : String) : ofSegment? (percentEncode s) = some s := by
  have hbytes : (s.toList.flatMap String.utf8EncodeChar).toByteArray = s.toByteArray :=
    congrArg String.toByteArray String.ofList_toList
  simp only [ofSegment?, percentEncode, String.toList_ofList, percentDecode_chars,
    Option.bind_some, hbytes, String.fromUTF8?, dif_pos s.isValidUTF8]
  rfl

theorem percentEncode_injective {s t : String} (h : percentEncode s = percentEncode t) : s = t := by
  have hs := ofSegment_percentEncode s
  rw [h, ofSegment_percentEncode] at hs
  exact (Option.some.inj hs).symm

theorem letters_of_percentDecode {cs : List Char} {bs : List UInt8}
    (h : percentDecode cs = some bs) : ∀ c ∈ cs, isPlainLetter c ∨ c = '%' := by
  fun_induction percentDecode cs generalizing bs with
  | case1 => simp
  | case2 hi lo rest ih =>
    obtain ⟨x, hx, h₁⟩ := Option.bind_eq_some_iff.mp h
    obtain ⟨y, hy, h₂⟩ := Option.bind_eq_some_iff.mp h₁
    obtain ⟨bs', hrest, -⟩ := Option.map_eq_some_iff.mp h₂
    have hhi : isPlainLetter hi := isPlainLetter_of_hexValue hx
    have hlo : isPlainLetter lo := isPlainLetter_of_hexValue hy
    simpa [hhi, hlo] using ih hrest
  | case3 cs hcs => cases h
  | case4 c cs hc hplain ih =>
    obtain ⟨bs', hcs, -⟩ := Option.map_eq_some_iff.mp h
    exact List.forall_mem_cons.mpr ⟨.inl hplain, ih hcs⟩
  | case5 => cases h

/-- A segment of an address that stands for a text: it is made of plain letters and escapes, and
nothing in it ends the segment or the path. -/
structure IsSegment (text segment : String) : Prop where
  stands : ofSegment? segment = some text
  letters : ∀ c ∈ segment.toList, isPlainLetter c ∨ c = '%'
  unbroken : ∀ c ∈ ['/', '?', '#'], c ∉ segment.toList
  filled : text ≠ "" → segment ≠ ""

theorem isSegment_percentEncode (s : String) : IsSegment s (percentEncode s) where
  stands := ofSegment_percentEncode s
  letters := by
    have h := percentDecode_chars s.toList
    simpa [percentEncode] using letters_of_percentDecode h
  unbroken := by
    have h := percentDecode_chars s.toList
    intro c hc hmem
    have hletter : isPlainLetter c ∨ c = '%' :=
      letters_of_percentDecode h c (by simpa [percentEncode] using hmem)
    have hnone : ¬ (isPlainLetter c ∨ c = '%') := by
      simp only [List.mem_cons, List.not_mem_nil, or_false] at hc
      rcases hc with rfl | rfl | rfl <;> decide
    exact hnone hletter
  filled := by
    intro hs he
    have hempty : percentEncode s = percentEncode "" := he
    exact hs (percentEncode_injective hempty)

theorem IsSegment.unique {s t segment : String} (hs : IsSegment s segment)
    (ht : IsSegment t segment) : s = t :=
  Option.some.inj (hs.stands.symm.trans ht.stands)

end BindingRelease.Text
