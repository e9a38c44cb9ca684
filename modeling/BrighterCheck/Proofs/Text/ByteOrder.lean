import Mathlib.Tactic.ByCases
import Mathlib.Tactic.Lemma
import Mathlib.Tactic.SplitIfs

/-!
# The order of texts is the order of their bytes

Texts are compared character by character. UTF-8 writes the number of a character in digits of six
bits behind a mark of the length, and more digits go with a greater mark, so that of two characters
the smaller one has the smaller bytes (`utf8EncodeChar_append_lt`). Hence the bytes of texts stand
in the order of the texts (`bytes_lt_bytes`).
-/

namespace BrighterCheck.Text

/-- The bytes of a text in UTF-8. -/
def bytes (s : String) : List UInt8 :=
  s.toUTF8.data.toList

lemma bytes_eq (s : String) : bytes s = s.toList.flatMap String.utf8EncodeChar := by
  unfold bytes
  conv_lhs => rw [← String.ofList_toList (s := s)]
  rw [String.toUTF8_eq_toByteArray, String.toByteArray_ofList, List.utf8Encode,
    List.data_toByteArray]

/-! ### Characters -/

/-- The smaller number is smaller before its last digit, or at that digit. -/
lemma digits_lt {m n : Nat} (h : m < n) :
    m / 64 < n / 64 ∨ m / 64 = n / 64 ∧ m % 64 < n % 64 := by
  omega

/-- The digits of two characters of the greatest length. -/
lemma four_digits_lt {m n : Nat} (h : m < n) (hn : n < 0x110000) :
    m / 262144 % 8 + 240 < n / 262144 % 8 + 240 ∨
      m / 262144 % 8 + 240 = n / 262144 % 8 + 240 ∧
        (m / 4096 % 64 + 128 < n / 4096 % 64 + 128 ∨ m / 4096 % 64 + 128 = n / 4096 % 64 + 128 ∧
          (m / 64 % 64 + 128 < n / 64 % 64 + 128 ∨ m / 64 % 64 + 128 = n / 64 % 64 + 128 ∧
            m % 64 + 128 < n % 64 + 128)) := by
  have h4096 (k : Nat) : k / 4096 = k / 64 / 64 := by omega
  have h262144 (k : Nat) : k / 262144 = k / 64 / 64 / 64 := by omega
  rw [h4096, h4096, h262144, h262144]
  -- Digit by digit from the last one to the first.
  rcases digits_lt h with h | ⟨_, _⟩
  · rcases digits_lt h with h | ⟨_, _⟩
    · rcases digits_lt h with h | ⟨_, _⟩ <;> omega
    · omega
  · omega

/-- The bytes of the smaller character are smaller, whatever stands behind them. -/
theorem utf8EncodeChar_append_lt {c d : Char} (h : c < d) (xs ys : List UInt8) :
    String.utf8EncodeChar c ++ xs < String.utf8EncodeChar d ++ ys := by
  have hlt : c.val.toNat < d.val.toNat := h
  have hd : d.val.toNat < 0x110000 := by
    have hvalid := d.valid
    simp only [UInt32.isValidChar, Nat.isValidChar] at hvalid
    omega
  unfold String.utf8EncodeChar
  generalize c.val.toNat = m at hlt ⊢
  generalize d.val.toNat = n at hlt hd ⊢
  have hbyte (k j b : Nat) (hj : 0 < j) (hb : j + b ≤ 256) :
      (UInt8.ofNat (k % j + b)).toNat = k % j + b := by
    have hk := Nat.mod_lt k hj
    rw [UInt8.toNat_ofNat', Nat.mod_eq_of_lt]
    omega
  dsimp only
  by_cases hm : m ≤ 0xffff
  · split_ifs <;>
      simp only [List.cons_append, List.cons_lt_cons_iff, UInt8.lt_iff_toNat_lt, ← UInt8.toNat_inj,
        UInt8.toNat_ofNat', Nat.reducePow] <;>
      omega
  · rw [if_neg (by omega), if_neg (by omega), if_neg hm, if_neg (by omega), if_neg (by omega),
      if_neg (by omega)]
    simp only [List.cons_append, List.cons_lt_cons_iff, UInt8.lt_iff_toNat_lt, ← UInt8.toNat_inj,
      hbyte _ 64 128 (by decide) (by decide), hbyte _ 8 240 (by decide) (by decide)]
    have hdigits := four_digits_lt hlt hd
    omega

/-! ### Texts -/

lemma flatMap_utf8EncodeChar_lt {cs ds : List Char} (h : cs < ds) :
    cs.flatMap String.utf8EncodeChar < ds.flatMap String.utf8EncodeChar := by
  induction cs generalizing ds with
  | nil =>
    cases ds with
    | nil => exact absurd h (List.lt_irrefl _)
    | cons d ds =>
      obtain ⟨b, bs, hd⟩ : ∃ b bs, String.utf8EncodeChar d = b :: bs :=
        List.exists_cons_of_ne_nil String.utf8EncodeChar_ne_nil
      rw [List.flatMap_nil, List.flatMap_cons, hd]
      exact List.nil_lt_cons b _
  | cons c cs ih =>
    cases ds with
    | nil => exact absurd h (List.not_lt_nil _)
    | cons d ds =>
      rw [List.flatMap_cons, List.flatMap_cons]
      rcases List.cons_lt_cons_iff.1 h with hlt | ⟨rfl, hlt⟩
      · exact utf8EncodeChar_append_lt hlt _ _
      · exact List.append_left_lt (ih hlt)

/-- The smaller text has the smaller bytes. -/
theorem bytes_lt_bytes {s t : String} (h : s < t) : bytes s < bytes t := by
  rw [bytes_eq, bytes_eq]
  exact flatMap_utf8EncodeChar_lt (String.lt_iff.1 h)

end BrighterCheck.Text
