import Mathlib.Data.String.Basic

/-!
# The order of texts

Texts are ordered character by character.  Written in UTF-8 they are ordered
byte by byte, and this is the same order.
-/

namespace Aggregation.Text

/-- The bytes of a text in UTF-8. -/
def bytes (s : String) : List UInt8 := s.toUTF8.data.toList

theorem bytes_eq_flatMap (s : String) :
    bytes s = s.toList.flatMap String.utf8EncodeChar := by
  have hbytes : s.toByteArray = s.toList.utf8Encode := by
    rw [← String.toByteArray_ofList, String.ofList_toList]
  rw [bytes, String.toUTF8_eq_toByteArray, hbytes, List.utf8Encode]
  simp

/-- Byte strings that part at some byte, the first with the lesser one. -/
inductive Parts : List UInt8 → List UInt8 → Prop
  | here {a b : UInt8} {as bs : List UInt8} (h : a < b) :
      Parts (a :: as) (b :: bs)
  | next {a : UInt8} {as bs : List UInt8} (h : Parts as bs) :
      Parts (a :: as) (a :: bs)

namespace Parts

variable {as bs : List UInt8}

/-- Whatever follows, the order is decided where the two part. -/
theorem append_lt_append (h : Parts as bs) (cs ds : List UInt8) :
    as ++ cs < bs ++ ds := by
  induction h with
  | here h => exact List.Lex.rel h
  | next _ ih => exact List.Lex.cons ih

/-- Either the first bytes part, or what follows them does. -/
theorem ofNat {a b : ℕ} (hb : b < 256) (h : b ≤ a → a = b ∧ Parts as bs) :
    Parts (UInt8.ofNat a :: as) (UInt8.ofNat b :: bs) := by
  by_cases hless : a < b
  · apply here
    rwa [UInt8.lt_iff_toNat_lt, UInt8.toNat_ofNat_of_lt' (hless.trans hb),
      UInt8.toNat_ofNat_of_lt' hb]
  · obtain ⟨rfl, hrest⟩ := h (by omega)
    exact next hrest

end Parts

/-- The bytes of a character part from those of a greater one: at the first byte
if they are of different number, else where their groups of six bits differ
first. -/
theorem parts_utf8EncodeChar {c d : Char} (h : c < d) :
    Parts (String.utf8EncodeChar c) (String.utf8EncodeChar d) := by
  have hless : c.val.toNat < d.val.toNat := h
  have hmax : d.val.toNat < 0x110000 := by
    have hvalid := d.valid
    simp only [UInt32.isValidChar, Nat.isValidChar] at hvalid
    omega
  simp only [String.utf8EncodeChar]
  generalize c.val.toNat = v at hless
  generalize d.val.toNat = w at hless hmax
  have one : v % 64 < w % 64 →
      Parts [UInt8.ofNat (v % 64 + 128)] [UInt8.ofNat (w % 64 + 128)] :=
        fun _ =>
    .ofNat (by omega) fun _ => by omega
  have two : v % 4096 < w % 4096 →
      Parts [UInt8.ofNat (v / 64 % 64 + 128), UInt8.ofNat (v % 64 + 128)]
        [UInt8.ofNat (w / 64 % 64 + 128), UInt8.ofNat (w % 64 + 128)] :=
          fun _ =>
    .ofNat (by omega) fun _ => ⟨by omega, one (by omega)⟩
  have three : v % 262144 < w % 262144 →
      Parts [UInt8.ofNat (v / 4096 % 64 + 128), UInt8.ofNat (v / 64 % 64 + 128),
          UInt8.ofNat (v % 64 + 128)]
        [UInt8.ofNat (w / 4096 % 64 + 128), UInt8.ofNat (w / 64 % 64 + 128),
          UInt8.ofNat (w % 64 + 128)] := fun _ =>
    .ofNat (by omega) fun _ => ⟨by omega, two (by omega)⟩
  by_cases hv₁ : v ≤ 0x7f
  · rw [if_pos hv₁]
    split_ifs <;> exact .ofNat (by omega) fun _ => by omega
  rw [if_neg hv₁, if_neg (by omega : ¬ w ≤ 0x7f)]
  by_cases hv₂ : v ≤ 0x7ff
  · rw [if_pos hv₂]
    split_ifs
    · exact .ofNat (by omega) fun _ => ⟨by omega, one (by omega)⟩
    all_goals exact .ofNat (by omega) fun _ => by omega
  rw [if_neg hv₂, if_neg (by omega : ¬ w ≤ 0x7ff)]
  by_cases hv₃ : v ≤ 0xffff
  · rw [if_pos hv₃]
    split_ifs
    · exact .ofNat (by omega) fun _ => ⟨by omega, two (by omega)⟩
    · exact .ofNat (by omega) fun _ => by omega
  · rw [if_neg hv₃, if_neg (by omega : ¬ w ≤ 0xffff)]
    exact .ofNat (by omega) fun _ => ⟨by omega, three (by omega)⟩

theorem bytes_lt_of_lt {s t : String} (h : s < t) : bytes s < bytes t := by
  rw [bytes_eq_flatMap, bytes_eq_flatMap]
  have hlex : List.Lex (· < ·) s.toList t.toList := String.lt_iff_toList_lt.mp h
  generalize s.toList = cs at hlex
  generalize t.toList = ds at hlex
  induction hlex with
  | @nil d ds =>
      obtain ⟨first, rest, hfirst⟩ := List.exists_cons_of_ne_nil
        (String.utf8EncodeChar_ne_nil (c := d))
      rw [List.flatMap_cons, hfirst]
      exact List.nil_lt_cons _ _
  | rel h =>
      rw [List.flatMap_cons, List.flatMap_cons]
      exact (parts_utf8EncodeChar h).append_lt_append _ _
  | @cons c cs ds _ ih =>
      rw [List.flatMap_cons, List.flatMap_cons]
      exact List.append_left_lt ih

/-- Texts are in the order of their bytes. -/
theorem bytes_lt_bytes_iff {s t : String} : bytes s < bytes t ↔ s < t := by
  refine ⟨fun h => ?_, bytes_lt_of_lt⟩
  by_contra hnot
  rcases lt_or_eq_of_le (String.not_lt.mp hnot) with hgreater | rfl
  · exact List.lt_asymm h (bytes_lt_of_lt hgreater)
  · exact List.lt_irrefl _ h

end Aggregation.Text
