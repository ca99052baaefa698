import Mathlib.Data.List.Basic

/-! Base64 with the URL alphabet and without padding, and the decoder of the standard
encoding. As in Go's decoder, line breaks are skipped and the unused bits of the last
character are not looked at. -/
namespace KubeYamls.Data.Base64
open List Option

def alphabet : List Char :=
  "ABCDEFGHIJKLMNOPQRSTUVWXYZabcdefghijklmnopqrstuvwxyz0123456789-_".toList

def digit (n : Nat) : Char := alphabet.getD n 'A'

def value (c : Char) : Option Nat := alphabet.findIdx? (· == c)

/-- Three bytes as four numbers of six bits. -/
def split : List UInt8 → List Nat
  | a :: b :: c :: rest =>
    a.toNat / 4 :: (a.toNat % 4 * 16 + b.toNat / 16) :: (b.toNat % 16 * 4 + c.toNat / 64) ::
      c.toNat % 64 :: split rest
  | [a, b] => [a.toNat / 4, a.toNat % 4 * 16 + b.toNat / 16, b.toNat % 16 * 4]
  | [a] => [a.toNat / 4, a.toNat % 4 * 16]
  | [] => []

def join : List Nat → Option (List UInt8)
  | a :: b :: c :: d :: rest => (join rest).map fun bytes =>
    .ofNat (a * 4 + b / 16) :: .ofNat (b % 16 * 16 + c / 4) :: .ofNat (c % 4 * 64 + d) :: bytes
  | [a, b, c] => some [.ofNat (a * 4 + b / 16), .ofNat (b % 16 * 16 + c / 4)]
  | [a, b] => some [.ofNat (a * 4 + b / 16)]
  | [_] => none
  | [] => some []

def encode (bytes : List UInt8) : List Char := (split bytes).map digit

def decode (cs : List Char) : Option (List UInt8) :=
  ((cs.filter fun c => c ≠ '\n' && c ≠ '\r').mapM value).bind join

theorem split_lt (bytes : List UInt8) : ∀ n ∈ split bytes, n < 64 := by
  fun_induction split bytes <;> grind [UInt8.toNat_lt]

private theorem ofNat_eq {n a} (h : n = a.toNat) : UInt8.ofNat n = a := by
  subst h
  exact UInt8.ofNat_toNat

theorem join_split (bytes : List UInt8) : join (split bytes) = some bytes := by
  fun_induction split bytes with
  | case4 => rfl
  | case1 a b c rest ih =>
    simp only [join, ih, map_some, some.injEq, List.cons.injEq, and_true]
    and_intros <;> exact ofNat_eq (by grind [UInt8.toNat_lt])
  | _ =>
    simp only [join, some.injEq, List.cons.injEq, and_true]
    and_intros <;> exact ofNat_eq (by grind [UInt8.toNat_lt])

theorem digit_spec : ∀ n < 64, value (digit n) = some n ∧ digit n ≠ '\n' ∧ digit n ≠ '\r' := by
  decide +kernel

private theorem mapM_value_digit (ns : List Nat) (h : ∀ n ∈ ns, n < 64) :
    (ns.map digit).mapM value = some ns := by
  induction ns with
  | nil => rfl
  | cons n ns ih =>
    have hn := (digit_spec n (h n mem_cons_self)).1
    have hns := ih fun m hm => h m (mem_cons_of_mem _ hm)
    simp [mapM_cons, hn, hns]

theorem decode_encode (bytes : List UInt8) : decode (encode bytes) = some bytes := by
  have hlt := split_lt bytes
  have hfilter : (encode bytes).filter (fun c => c ≠ '\n' && c ≠ '\r') = encode bytes := by
    refine filter_eq_self.mpr fun c hc => ?_
    obtain ⟨n, hn, rfl⟩ := mem_map.mp hc
    obtain ⟨_, h1, h2⟩ := digit_spec n (hlt n hn)
    simp [h1, h2]
  rw [decode, hfilter, encode, mapM_value_digit _ hlt]
  exact join_split bytes

theorem join_of_length {ns} (h : ns.length % 4 = 1) : join ns = none := by
  fun_induction join ns with
  | case1 a b c d rest ih =>
    simp only [length_cons] at h
    rw [ih (by omega)]
    rfl
  | case4 => rfl
  | _ => cases h

private theorem length_mapM_value {cs : List Char} {ns} (h : cs.mapM value = some ns) :
    ns.length = cs.length := by
  induction cs generalizing ns with
  | nil =>
    cases h
    rfl
  | cons c cs ih =>
    simp only [mapM_cons, bind_eq_bind, bind_eq_some_iff] at h
    obtain ⟨n, -, ns', hns, heq⟩ := h
    cases heq
    simp [ih hns]

theorem decode_of_length {cs : List Char} (hbreak : ∀ c ∈ cs, c ≠ '\n' ∧ c ≠ '\r')
    (h : cs.length % 4 = 1) : decode cs = none := by
  have hfilter : (cs.filter fun c => c ≠ '\n' && c ≠ '\r') = cs := by
    rw [filter_eq_self]
    intro c hc
    simpa using hbreak c hc
  rw [decode, hfilter]
  cases hvalues : cs.mapM value with
  | none => rfl
  | some ns => exact join_of_length (by rwa [length_mapM_value hvalues])


/-! ## The standard encoding

A decoder that fails says at which byte of the input. -/

def stdAlphabet : List Char :=
  "ABCDEFGHIJKLMNOPQRSTUVWXYZabcdefghijklmnopqrstuvwxyz0123456789+/".toList

def stdValue (c : Char) : Option Nat := stdAlphabet.findIdx? (· == c)

def isBreak (c : Char) : Bool := c = '\n' || c = '\r'

/-- Nothing but line breaks may come after the padding. -/
def afterPadding (si : Nat) (q : List Nat) (cs : List Char) : Except Nat (List UInt8) :=
  if (cs.dropWhile isBreak).isEmpty then .ok ((join q).getD [])
  else .error (si + (cs.takeWhile isBreak).length)

/-- The quantum `q` is followed by a first padding character at `si`. -/
def padding (si : Nat) (q : List Nat) (cs : List Char) : Except Nat (List UInt8) :=
  if q.length = 2 then
    let next := si + 1 + (cs.takeWhile isBreak).length
    match cs.dropWhile isBreak with
    | [] => .error next
    | c :: rest => if c = '=' then afterPadding (next + 1) q rest else .error (next - 1)
  else if q.length = 3 then afterPadding (si + 1) q cs
  else .error si

def decodeStdFrom (si : Nat) (q : List Nat) : List Char → Except Nat (List UInt8)
  | [] => if q.isEmpty then .ok [] else .error (si - q.length)
  | c :: cs =>
    match stdValue c with
    | some v =>
      if q.length = 3 then
        (fun bytes => (join (q ++ [v])).getD [] ++ bytes) <$> decodeStdFrom (si + 1) [] cs
      else decodeStdFrom (si + 1) (q ++ [v]) cs
    | none =>
      if isBreak c then decodeStdFrom (si + 1) q cs
      else if c = '=' then padding si q cs
      else .error si

def decodeStd (cs : List Char) : Except Nat (List UInt8) := decodeStdFrom 0 [] cs

def stdDigit (n : Nat) : Char := stdAlphabet.getD n 'A'

/-- The standard encoding, with padding. -/
def encodeStd : List UInt8 → List Char
  | a :: b :: c :: rest => (split [a, b, c]).map stdDigit ++ encodeStd rest
  | [a, b] => (split [a, b]).map stdDigit ++ ['=']
  | [a] => (split [a]).map stdDigit ++ ['=', '=']
  | [] => []

theorem stdDigit_spec : ∀ n < 64, stdValue (stdDigit n) = some n := by
  decide +kernel

theorem decodeStdFrom_digit (si : Nat) (q : List Nat) {n} (hn : n < 64) (cs : List Char) (hq : q.length < 3) :
    decodeStdFrom si q (stdDigit n :: cs) = decodeStdFrom (si + 1) (q ++ [n]) cs := by
  rw [decodeStdFrom, stdDigit_spec n hn]
  exact if_neg (by omega)

theorem decodeStdFrom_last (si : Nat) (q : List Nat) {n} (hn : n < 64) (cs : List Char)
    (hq : q.length = 3) : decodeStdFrom si q (stdDigit n :: cs) =
      (fun bytes => (join (q ++ [n])).getD [] ++ bytes) <$> decodeStdFrom (si + 1) [] cs := by
  rw [decodeStdFrom, stdDigit_spec n hn]
  exact if_pos hq

theorem decodeStdFrom_equals (si : Nat) (q : List Nat) (cs : List Char) :
    decodeStdFrom si q ('=' :: cs) = padding si q cs := by
  have hvalue : stdValue '=' = none := by decide +kernel
  rw [decodeStdFrom, hvalue]
  rfl

theorem decodeStdFrom_encodeStd (bytes : List UInt8) (si : Nat) :
    decodeStdFrom si [] (encodeStd bytes) = .ok bytes := by
  fun_induction encodeStd bytes generalizing si with
  | case1 a b c rest ih =>
    have hlt := split_lt [a, b, c]
    have hjoin := join_split [a, b, c]
    simp only [split, mem_cons, not_mem_nil, or_false, forall_eq_or_imp, forall_eq] at hlt hjoin
    obtain ⟨h1, h2, h3, h4⟩ := hlt
    simp only [split, map_cons, map_nil, cons_append, nil_append]
    rw [decodeStdFrom_digit _ _ h1 _ (by simp), decodeStdFrom_digit _ _ h2 _ (by simp),
      decodeStdFrom_digit _ _ h3 _ (by simp), decodeStdFrom_last _ _ h4 _ (by simp), ih]
    simp [hjoin, Functor.map, Except.map]
  | case2 a b =>
    have hlt := split_lt [a, b]
    have hjoin := join_split [a, b]
    simp only [split, mem_cons, not_mem_nil, or_false, forall_eq_or_imp, forall_eq] at hlt hjoin
    obtain ⟨h1, h2, h3⟩ := hlt
    simp only [split, map_cons, map_nil, cons_append, nil_append]
    rw [decodeStdFrom_digit _ _ h1 _ (by simp), decodeStdFrom_digit _ _ h2 _ (by simp),
      decodeStdFrom_digit _ _ h3 _ (by simp), decodeStdFrom_equals]
    simp [padding, afterPadding, hjoin]
  | case3 a =>
    have hlt := split_lt [a]
    have hjoin := join_split [a]
    simp only [split, mem_cons, not_mem_nil, or_false, forall_eq_or_imp, forall_eq] at hlt hjoin
    obtain ⟨h1, h2⟩ := hlt
    simp only [split, map_cons, map_nil, cons_append, nil_append]
    rw [decodeStdFrom_digit _ _ h1 _ (by simp), decodeStdFrom_digit _ _ h2 _ (by simp), decodeStdFrom_equals]
    simp [padding, afterPadding, hjoin, isBreak]
  | case4 => rfl

theorem decodeStd_encodeStd (bytes : List UInt8) : decodeStd (encodeStd bytes) = .ok bytes :=
  decodeStdFrom_encodeStd bytes 0

end KubeYamls.Data.Base64
