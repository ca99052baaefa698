import Mathlib.Data.List.Nodup

/-! Base32 over an alphabet of 32 characters, padded to groups of eight with the
equals sign as in Go's encoder. What is left when the padding is trimmed still
determines the bytes. -/
namespace KubeYamls.Data.Base32
open List

/-- Five bytes as eight numbers of five bits. -/
def split : List UInt8 → List Nat
  | a :: b :: c :: d :: e :: rest =>
    a.toNat / 8 :: (a.toNat % 8 * 4 + b.toNat / 64) :: b.toNat / 2 % 32 ::
      (b.toNat % 2 * 16 + c.toNat / 16) :: (c.toNat % 16 * 2 + d.toNat / 128) ::
      d.toNat / 4 % 32 :: (d.toNat % 4 * 8 + e.toNat / 32) :: e.toNat % 32 :: split rest
  | [a, b, c, d] =>
    [a.toNat / 8, a.toNat % 8 * 4 + b.toNat / 64, b.toNat / 2 % 32,
      b.toNat % 2 * 16 + c.toNat / 16, c.toNat % 16 * 2 + d.toNat / 128, d.toNat / 4 % 32,
      d.toNat % 4 * 8]
  | [a, b, c] =>
    [a.toNat / 8, a.toNat % 8 * 4 + b.toNat / 64, b.toNat / 2 % 32,
      b.toNat % 2 * 16 + c.toNat / 16, c.toNat % 16 * 2]
  | [a, b] => [a.toNat / 8, a.toNat % 8 * 4 + b.toNat / 64, b.toNat / 2 % 32, b.toNat % 2 * 16]
  | [a] => [a.toNat / 8, a.toNat % 8 * 4]
  | [] => []

def join : List Nat → List UInt8
  | q :: r :: s :: t :: u :: v :: w :: x :: rest =>
    .ofNat (q * 8 + r / 4) :: .ofNat (r % 4 * 64 + s * 2 + t / 16) :: .ofNat (t % 16 * 16 + u / 2) ::
      .ofNat (u % 2 * 128 + v * 4 + w / 8) :: .ofNat (w % 8 * 32 + x) :: join rest
  | [q, r, s, t, u, v, w] =>
    [.ofNat (q * 8 + r / 4), .ofNat (r % 4 * 64 + s * 2 + t / 16), .ofNat (t % 16 * 16 + u / 2),
      .ofNat (u % 2 * 128 + v * 4 + w / 8)]
  | [q, r, s, t, u] =>
    [.ofNat (q * 8 + r / 4), .ofNat (r % 4 * 64 + s * 2 + t / 16), .ofNat (t % 16 * 16 + u / 2)]
  | [q, r, s, t] => [.ofNat (q * 8 + r / 4), .ofNat (r % 4 * 64 + s * 2 + t / 16)]
  | [q, r] => [.ofNat (q * 8 + r / 4)]
  | _ => []

private theorem ofNat_eq {n a} (h : n = a.toNat) : UInt8.ofNat n = a := by
  subst h
  exact UInt8.ofNat_toNat

theorem join_split (bytes : List UInt8) : join (split bytes) = bytes := by
  fun_induction split bytes with
  | case6 => rfl
  | case1 a b c d e rest ih =>
    have ha := a.toNat_lt
    have hb := b.toNat_lt
    have hc := c.toNat_lt
    have hd := d.toNat_lt
    have he := e.toNat_lt
    simp only [join, ih, List.cons.injEq, and_true]
    and_intros <;> exact ofNat_eq (by omega)
  | _ =>
    simp only [join, List.cons.injEq, and_true]
    and_intros <;> exact ofNat_eq (by grind [UInt8.toNat_lt])

theorem split_lt (bytes : List UInt8) : ∀ n ∈ split bytes, n < 32 := by
  fun_induction split bytes with
  | case1 a b c d e rest ih =>
    simp only [mem_cons, forall_eq_or_imp]
    grind [UInt8.toNat_lt]
  | _ => grind [UInt8.toNat_lt]

theorem length_split (bytes : List UInt8) : (split bytes).length = (8 * bytes.length + 4) / 5 := by
  fun_induction split bytes with
  | case1 a b c d e rest ih =>
    simp only [length_cons, ih]
    omega
  | _ => simp

structure Alphabet where
  chars : List Char
  length : chars.length = 32
  nodup : chars.Nodup
  pad : '=' ∉ chars

namespace Alphabet
variable (α : Alphabet)

def digit (n : Nat) : Char := α.chars.getD n '='

def digits (bytes : List UInt8) : List Char := (split bytes).map α.digit

def encodeToString (bytes : List UInt8) : List Char :=
  α.digits bytes ++ List.replicate ((8 - (split bytes).length % 8) % 8) '='

/-- The encoding without its padding. -/
def encodeTrimmed (bytes : List UInt8) : List Char :=
  ((α.encodeToString bytes).reverse.dropWhile (· = '=')).reverse

theorem digit_eq {n} (h : n < α.chars.length) : α.digit n = α.chars[n] := by
  simp [digit, h]

theorem digit_mem {n} (h : n < 32) : α.digit n ∈ α.chars := by
  rw [α.digit_eq (α.length ▸ h)]
  exact getElem_mem _

theorem digit_inj {m n} (hm : m < 32) (hn : n < 32) (h : α.digit m = α.digit n) : m = n := by
  rw [α.digit_eq (α.length ▸ hm), α.digit_eq (α.length ▸ hn)] at h
  exact (List.Nodup.getElem_inj_iff α.nodup).mp h

theorem map_digit_inj {l l' : List Nat} (hl : ∀ n ∈ l, n < 32) (hl' : ∀ n ∈ l', n < 32)
    (h : l.map α.digit = l'.map α.digit) : l = l' := by
  induction l generalizing l' with
  | nil => exact (map_eq_nil_iff.mp h.symm).symm
  | cons n l ih =>
    cases l' with
    | nil => cases h
    | cons n' l' =>
      obtain ⟨hn, ht⟩ := List.cons.inj h
      obtain ⟨hlt, hl⟩ := forall_mem_cons.mp hl
      obtain ⟨hlt', hl'⟩ := forall_mem_cons.mp hl'
      rw [α.digit_inj hlt hlt' hn, ih hl hl' ht]

theorem dropWhile_replicate {c} {l : List Char} (hl : c ∉ l) (n : Nat) :
    (List.replicate n c ++ l).dropWhile (· = c) = l := by
  induction n with
  | zero =>
    cases l with
    | nil => rfl
    | cons d l => simp [(ne_of_not_mem_cons hl).symm]
  | succ n ih => simpa [replicate_succ] using ih

theorem encodeTrimmed_eq (bytes : List UInt8) : α.encodeTrimmed bytes = α.digits bytes := by
  have hd : '=' ∉ (α.digits bytes).reverse := by
    intro hc
    obtain ⟨n, hn, he⟩ := mem_map.mp (mem_reverse.mp hc)
    exact α.pad (he ▸ α.digit_mem (split_lt bytes n hn))
  rw [encodeTrimmed, encodeToString, reverse_append, reverse_replicate,
    dropWhile_replicate hd, reverse_reverse]

theorem length_encodeTrimmed (bytes : List UInt8) :
    (α.encodeTrimmed bytes).length = (8 * bytes.length + 4) / 5 := by
  rw [encodeTrimmed_eq, digits, length_map, length_split]

theorem mem_encodeTrimmed {bytes c} (h : c ∈ α.encodeTrimmed bytes) : c ∈ α.chars := by
  rw [encodeTrimmed_eq] at h
  obtain ⟨n, hn, rfl⟩ := mem_map.mp h
  exact α.digit_mem (split_lt bytes n hn)

/-- Trimming loses nothing: the encoding without padding is injective. -/
theorem encodeTrimmed_injective : Function.Injective α.encodeTrimmed := fun a b h => by
  rw [encodeTrimmed_eq, encodeTrimmed_eq] at h
  rw [← join_split a, ← join_split b, α.map_digit_inj (split_lt a) (split_lt b) h]

end Alphabet

end KubeYamls.Data.Base32
