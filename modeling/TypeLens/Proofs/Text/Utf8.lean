import TypeLens.Text.Utf8

/-!
# Reading what was written

Lenient reading replaces bytes only where they are malformed. The bytes of a text never are:
reading them gives the text back (`decodeLossy_toUTF8`).

A character of several bytes is read in steps. The first byte tells how many follow it and within
which bounds the next one is (`decodeFrom_begin`), the bytes up to the last one add their bits
(`decodeFrom_follow`), and the last one completes the character (`decodeFrom_complete`). The bounds
are what the encoding has to meet: they keep out what fewer bytes would do for, and the surrogates.
-/

namespace TypeLens.Text

/-! ### Steps of reading -/

section

variable {b n bits missing least greatest : Nat} (bytes : List Nat)

/-- A byte that begins a longer character. -/
theorem decodeFrom_begin (hb : 0x80 ≤ b) (h : followers? b = some (n, least, greatest)) :
    decodeFrom none (b :: bytes) = decodeFrom (some ⟨leadBits n b, n, least, greatest⟩) bytes := by
  rw [decodeFrom, readByte, beginChar, if_neg (Nat.not_lt.2 hb), h]
  rfl

/-- A byte with more to come. -/
theorem decodeFrom_follow (hb : least ≤ b ∧ b ≤ greatest) (hmissing : 1 < missing) :
    decodeFrom (some ⟨bits, missing, least, greatest⟩) (b :: bytes) =
      decodeFrom (some ⟨bits * 64 + b % 64, missing - 1, 0x80, 0xBF⟩) bytes := by
  rw [decodeFrom, readByte, if_pos hb, if_neg (Nat.not_le.2 hmissing)]
  rfl

/-- The last byte of a character. -/
theorem decodeFrom_complete (hb : least ≤ b ∧ b ≤ greatest) :
    decodeFrom (some ⟨bits, 1, least, greatest⟩) (b :: bytes) =
      Char.ofNat (bits * 64 + b % 64) :: decodeFrom none bytes := by
  rw [decodeFrom, readByte, if_pos hb, if_pos (Nat.le_refl 1)]
  rfl

end

/-! ### Leading bytes -/

/-- Of two bytes. -/
theorem followers?_two {v : Nat} (hleast : 0x80 ≤ v) (hgreatest : v < 0x800) :
    followers? (v / 64 + 0xC0) = some (1, 0x80, 0xBF) := by
  rw [followers?, if_pos (by omega)]

/-- Of three bytes. The bounds of the second one leave out what two bytes encode, and surrogates. -/
theorem followers?_three {v : Nat} (hleast : 0x800 ≤ v) (hgreatest : v < 0x10000)
    (hscalar : v < 0xD800 ∨ 0xDFFF < v) :
    ∃ least greatest, followers? (v / 4096 + 0xE0) = some (2, least, greatest) ∧
      least ≤ v / 64 % 64 + 0x80 ∧ v / 64 % 64 + 0x80 ≤ greatest := by
  rw [followers?, if_neg (by omega)]
  split
  · exact ⟨0xA0, 0xBF, rfl, by omega, by omega⟩
  · split
    · exact ⟨0x80, 0x9F, rfl, by omega, by omega⟩
    · rw [if_pos (by omega)]
      exact ⟨0x80, 0xBF, rfl, by omega, by omega⟩

/-- Of four bytes. The bounds of the second one leave out what three bytes encode, and what is no
character. -/
theorem followers?_four {v : Nat} (hleast : 0x10000 ≤ v) (hgreatest : v < 0x110000) :
    ∃ least greatest, followers? (v / 262144 + 0xF0) = some (3, least, greatest) ∧
      least ≤ v / 4096 % 64 + 0x80 ∧ v / 4096 % 64 + 0x80 ≤ greatest := by
  rw [followers?, if_neg (by omega), if_neg (by omega), if_neg (by omega), if_neg (by omega)]
  split
  · exact ⟨0x90, 0xBF, rfl, by omega, by omega⟩
  · split
    · exact ⟨0x80, 0x8F, rfl, by omega, by omega⟩
    · rw [if_pos (by omega)]
      exact ⟨0x80, 0xBF, rfl, by omega, by omega⟩

/-! ### Whole characters -/

section

variable {v : Nat} (bytes : List Nat)

/-- A character of two bytes. -/
theorem decodeFrom_two (hleast : 0x80 ≤ v) (hgreatest : v < 0x800) :
    decodeFrom none ((v / 64 + 0xC0) :: (v % 64 + 0x80) :: bytes) =
      Char.ofNat v :: decodeFrom none bytes := by
  have hbits : leadBits 1 (v / 64 + 0xC0) * 64 + (v % 64 + 0x80) % 64 = v := by
    rw [leadBits]
    omega
  rw [decodeFrom_begin _ (by omega) (followers?_two hleast hgreatest),
    decodeFrom_complete _ ⟨by omega, by omega⟩, hbits]

/-- A character of three bytes. -/
theorem decodeFrom_three (hleast : 0x800 ≤ v) (hgreatest : v < 0x10000)
    (hscalar : v < 0xD800 ∨ 0xDFFF < v) :
    decodeFrom none ((v / 4096 + 0xE0) :: (v / 64 % 64 + 0x80) :: (v % 64 + 0x80) :: bytes) =
      Char.ofNat v :: decodeFrom none bytes := by
  obtain ⟨least, greatest, hlead, hsecond⟩ := followers?_three hleast hgreatest hscalar
  have hbits : (leadBits 2 (v / 4096 + 0xE0) * 64 + (v / 64 % 64 + 0x80) % 64) * 64 +
      (v % 64 + 0x80) % 64 = v := by
    rw [leadBits]
    omega
  rw [decodeFrom_begin _ (by omega) hlead, decodeFrom_follow _ hsecond (by decide),
    decodeFrom_complete _ ⟨by omega, by omega⟩, hbits]

/-- A character of four bytes. -/
theorem decodeFrom_four (hleast : 0x10000 ≤ v) (hgreatest : v < 0x110000) :
    decodeFrom none ((v / 262144 + 0xF0) :: (v / 4096 % 64 + 0x80) :: (v / 64 % 64 + 0x80) ::
      (v % 64 + 0x80) :: bytes) = Char.ofNat v :: decodeFrom none bytes := by
  obtain ⟨least, greatest, hlead, hsecond⟩ := followers?_four hleast hgreatest
  have hbits : ((leadBits 3 (v / 262144 + 0xF0) * 64 + (v / 4096 % 64 + 0x80) % 64) * 64 +
      (v / 64 % 64 + 0x80) % 64) * 64 + (v % 64 + 0x80) % 64 = v := by
    rw [leadBits.eq_3 _ _ (by decide) (by decide)]
    omega
  rw [decodeFrom_begin _ (by omega) hlead, decodeFrom_follow _ hsecond (by decide),
    decodeFrom_follow _ ⟨by omega, by omega⟩ (by decide),
    decodeFrom_complete _ ⟨by omega, by omega⟩, hbits]

/-- The bytes of the character with a number. -/
def scalarBytes (v : Nat) : List Nat :=
  if v < 0x80 then [v]
  else if v < 0x800 then [v / 64 + 0xC0, v % 64 + 0x80]
  else if v < 0x10000 then [v / 4096 + 0xE0, v / 64 % 64 + 0x80, v % 64 + 0x80]
  else [v / 262144 + 0xF0, v / 4096 % 64 + 0x80, v / 64 % 64 + 0x80, v % 64 + 0x80]

/-- The bytes of a character in front of others are read as the character. -/
theorem decodeFrom_scalarBytes_append (hv : v.isValidChar) :
    decodeFrom none (scalarBytes v ++ bytes) = Char.ofNat v :: decodeFrom none bytes := by
  have hscalar : v < 0xD800 ∨ 0xDFFF < v ∧ v < 0x110000 := hv
  rw [scalarBytes]
  by_cases hone : v < 0x80
  · rw [if_pos hone, List.singleton_append, decodeFrom, readByte, beginChar, if_pos hone]
    rfl
  rw [if_neg hone]
  by_cases htwo : v < 0x800
  · rw [if_pos htwo]
    exact decodeFrom_two bytes (Nat.not_lt.1 hone) htwo
  rw [if_neg htwo]
  by_cases hthree : v < 0x10000
  · rw [if_pos hthree]
    exact decodeFrom_three bytes (Nat.not_lt.1 htwo) hthree (hscalar.imp id And.left)
  · rw [if_neg hthree]
    exact decodeFrom_four bytes (Nat.not_lt.1 hthree) (by omega)

end

/-! ### Texts -/

/-- The bytes of a character are those of its number. -/
theorem map_toNat_utf8EncodeChar (c : Char) :
    (String.utf8EncodeChar c).map UInt8.toNat = scalarBytes c.toNat := by
  have hvalid : c.toNat < 0xD800 ∨ 0xDFFF < c.toNat ∧ c.toNat < 0x110000 := c.valid
  have hval : c.val.toNat = c.toNat := rfl
  rw [String.utf8EncodeChar, hval, scalarBytes]
  generalize c.toNat = v at hvalid
  by_cases hone : v < 0x80
  · rw [if_pos (Nat.le_of_lt_succ hone), if_pos hone]
    simp only [List.map_cons, List.map_nil, UInt8.toNat_ofNat', List.cons.injEq, and_true]
    omega
  rw [if_neg (by omega), if_neg hone]
  by_cases htwo : v < 0x800
  · rw [if_pos (Nat.le_of_lt_succ htwo), if_pos htwo]
    simp only [List.map_cons, List.map_nil, UInt8.toNat_ofNat', List.cons.injEq, and_true]
    omega
  rw [if_neg (by omega), if_neg htwo]
  by_cases hthree : v < 0x10000
  · rw [if_pos (Nat.le_of_lt_succ hthree), if_pos hthree]
    simp only [List.map_cons, List.map_nil, UInt8.toNat_ofNat', List.cons.injEq, and_true]
    omega
  rw [if_neg (by omega), if_neg hthree]
  simp only [List.map_cons, List.map_nil, UInt8.toNat_ofNat', List.cons.injEq, and_true]
  omega

/-- The bytes of a text. -/
theorem toUTF8_toList (s : String) :
    s.toUTF8.data.toList = s.toList.flatMap String.utf8EncodeChar := by
  conv => lhs; rw [← s.ofList_toList]
  exact List.toList_data_toByteArray

/-- **The bytes of a text are read as the text.** -/
theorem decodeLossy_toUTF8 (s : String) :
    decodeLossy (s.toUTF8.data.toList.map UInt8.toNat) = s.toList := by
  rw [toUTF8_toList, decodeLossy]
  induction s.toList with
  | nil => rfl
  | cons c cs ih =>
    rw [List.flatMap_cons, List.map_append, map_toNat_utf8EncodeChar,
      decodeFrom_scalarBytes_append _ (show c.toNat.isValidChar from c.valid), ih,
      Char.ofNat_toNat]

end TypeLens.Text
