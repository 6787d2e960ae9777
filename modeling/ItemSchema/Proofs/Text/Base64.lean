import ItemSchema.Text.Base64

/-! Reading base 64 accepts exactly what writing it produces: every row of bytes has one text, and
every other text is refused. -/
namespace ItemSchema.Text.Base64

theorem digit?_letter_below : ∀ digit < 64, digit? (letter digit) = some digit := by
  decide

theorem letter_ne_fill_below : ∀ digit < 64, letter digit ≠ '=' := by
  decide

theorem letter_of_digit? (read : digit? c = some digit) : digit < 64 ∧ letter digit = c := by
  have same : ∀ n, n = c.toNat → Char.ofNat n = c := by
    rintro n rfl
    exact Char.ofNat_toNat c
  unfold digit? at read
  dsimp only at read
  unfold letter
  split at read
  · rename_i range
    cases read
    simp only [Bool.and_eq_true, decide_eq_true_eq] at range
    rw [if_pos (by omega)]
    exact ⟨by omega, same _ (by omega)⟩
  · split at read
    · rename_i range
      cases read
      simp only [Bool.and_eq_true, decide_eq_true_eq] at range
      rw [if_neg (by omega), if_pos (by omega)]
      exact ⟨by omega, same _ (by omega)⟩
    · split at read
      · rename_i range
        cases read
        simp only [Bool.and_eq_true, decide_eq_true_eq] at range
        rw [if_neg (by omega), if_neg (by omega), if_pos (by omega)]
        exact ⟨by omega, same _ (by omega)⟩
      · split at read
        · rename_i plus
          cases read
          exact ⟨by omega, plus.symm⟩
        · split at read
          · rename_i slash
            cases read
            exact ⟨by omega, slash.symm⟩
          · contradiction

theorem digit?_letter (bound : digit < 64) : digit? (letter digit) = some digit :=
  digit?_letter_below digit bound

/-- A group without fill. -/
theorem decodeChars?_group (p q r s : Char) (rest : List Char) (whole : s = '=' → rest ≠ []) :
    decodeChars? (p :: q :: r :: s :: rest) = (do
      let p ← digit? p
      let q ← digit? q
      let r ← digit? r
      let s ← digit? s
      let bytes ← decodeChars? rest
      some (UInt8.ofNat (p * 4 + q / 16) :: UInt8.ofNat (q % 16 * 16 + r / 4) ::
        UInt8.ofNat (r % 4 * 64 + s) :: bytes)) := by
  rw [decodeChars?]
  · intro _ fill last
    exact whole fill last
  · intro fill last
    exact whole fill last

theorem decodeChars?_encodeChars (bytes : List UInt8) :
    decodeChars? (encodeChars bytes) = some bytes := by
  have byte : ∀ (a : UInt8) n, n = a.toNat → UInt8.ofNat n = a := by
    rintro a n rfl
    exact UInt8.ofNat_toNat
  induction bytes using encodeChars.induct with
  | case1 => rfl
  | case2 a =>
    have small := a.toNat_lt
    rw [encodeChars, decodeChars?, digit?_letter (by omega), digit?_letter (by omega)]
    simp only [Option.bind_eq_bind, Option.bind_some]
    rw [if_pos (by omega), byte a _ (by omega)]
  | case3 a b =>
    have small := a.toNat_lt
    have small := b.toNat_lt
    rw [encodeChars, decodeChars?, digit?_letter (by omega), digit?_letter (by omega),
      digit?_letter (by omega)]
    · simp only [Option.bind_eq_bind, Option.bind_some]
      rw [if_pos (by omega), byte a _ (by omega), byte b _ (by omega)]
    · exact letter_ne_fill_below _ (by omega)
  | case4 a b c rest ih =>
    have small := a.toNat_lt
    have small := b.toNat_lt
    have small := c.toNat_lt
    have whole : letter (c.toNat % 64) = '=' → encodeChars rest ≠ [] :=
      fun fill => absurd fill (letter_ne_fill_below _ (by omega))
    rw [encodeChars, decodeChars?_group _ _ _ _ _ whole, digit?_letter (by omega),
      digit?_letter (by omega), digit?_letter (by omega), digit?_letter (by omega), ih]
    simp only [Option.bind_eq_bind, Option.bind_some]
    rw [byte a _ (by omega), byte b _ (by omega), byte c _ (by omega)]

theorem eq_encodeChars_of_decodeChars? (read : decodeChars? chars = some bytes) :
    chars = encodeChars bytes := by
  have byte : ∀ n, n < 256 → (UInt8.ofNat n).toNat = n := by
    intro n bound
    rw [UInt8.toNat_ofNat']
    omega
  induction chars using decodeChars?.induct generalizing bytes with
  | case1 =>
    cases read
    rfl
  | case2 p q =>
    simp only [decodeChars?, Option.bind_eq_bind, Option.bind_eq_some_iff] at read
    obtain ⟨i, first, j, second, read⟩ := read
    split at read
    · rename_i unused
      cases read
      obtain ⟨small, rfl⟩ := letter_of_digit? first
      obtain ⟨small, rfl⟩ := letter_of_digit? second
      have p : (i * 4 + j / 16) / 4 = i := by omega
      have q : (i * 4 + j / 16) % 4 * 16 = j := by omega
      rw [encodeChars, byte _ (by omega), p, q]
    · cases read
  | case3 p q r notFill =>
    simp only [decodeChars?, Option.bind_eq_bind, Option.bind_eq_some_iff] at read
    obtain ⟨i, first, j, second, k, third, read⟩ := read
    split at read
    · rename_i unused
      cases read
      obtain ⟨small, rfl⟩ := letter_of_digit? first
      obtain ⟨small, rfl⟩ := letter_of_digit? second
      obtain ⟨small, rfl⟩ := letter_of_digit? third
      have p : (i * 4 + j / 16) / 4 = i := by omega
      have q : (i * 4 + j / 16) % 4 * 16 + (j % 16 * 16 + k / 4) / 16 = j := by omega
      have r : (j % 16 * 16 + k / 4) % 16 * 4 = k := by omega
      rw [encodeChars, byte _ (by omega), byte _ (by omega), p, q, r]
    · cases read
  | case4 p q r s rest _ whole ih =>
    rw [decodeChars?_group p q r s rest whole] at read
    simp only [Option.bind_eq_bind, Option.bind_eq_some_iff] at read
    obtain ⟨i, first, j, second, k, third, l, fourth, more, later, same⟩ := read
    cases same
    obtain ⟨small, rfl⟩ := letter_of_digit? first
    obtain ⟨small, rfl⟩ := letter_of_digit? second
    obtain ⟨small, rfl⟩ := letter_of_digit? third
    obtain ⟨small, rfl⟩ := letter_of_digit? fourth
    have p : (i * 4 + j / 16) / 4 = i := by omega
    have q : (i * 4 + j / 16) % 4 * 16 + (j % 16 * 16 + k / 4) / 16 = j := by omega
    have r : (j % 16 * 16 + k / 4) % 16 * 4 + (k % 4 * 64 + l) / 64 = k := by omega
    have s : (k % 4 * 64 + l) % 64 = l := by omega
    rw [encodeChars, byte _ (by omega), byte _ (by omega), byte _ (by omega), p, q, r, s, ih later]
  | case5 chars empty one two group =>
    rw [decodeChars?] at read
    · cases read
    · exact empty
    · exact one
    · exact two
    · exact group

theorem decode?_eq_some_iff : decode? text = some bytes ↔ text = encode bytes := by
  unfold decode? encode
  constructor
  · intro read
    rw [← eq_encodeChars_of_decodeChars? read, String.ofList_toList]
  · rintro rfl
    rw [String.toList_ofList, decodeChars?_encodeChars]

end ItemSchema.Text.Base64
