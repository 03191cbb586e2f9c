import Norr.Lib.Bytes

/-! BLAKE2s as RFC 7693 writes it. An array of words is a list. -/

namespace Rfc7693

abbrev Word := BitVec 32

/-- The first 32 bits behind the point of the square roots of the first eight primes. -/
def IV : List Word := [2, 3, 5, 7, 11, 13, 17, 19].map fun prime => BitVec.ofNat 32 (Nat.sqrt (prime * 2 ^ 64))

/-- One number for a round, whose digits are the message words in the order in which they are taken. -/
def SIGMA : List ℕ :=
  [0x0123456789ABCDEF, 0xEA489FD61C02B753, 0xB8C052FDAE367194, 0x7931DCBE265A40F8, 0x905724AFE1BC683D,
    0x2C6A0B834D75FE19, 0xC51FED4A0763928B, 0xDB7EC13950F4862A, 0x6FE9B308C2D714A5, 0xA2847615FB9E3CD0]

def G (v : List Word) (a b c d : ℕ) (x y : Word) : List Word :=
  let v := v.set a (v.getD a 0 + v.getD b 0 + x)
  let v := v.set d ((v.getD d 0 ^^^ v.getD a 0).rotateRight 16)
  let v := v.set c (v.getD c 0 + v.getD d 0)
  let v := v.set b ((v.getD b 0 ^^^ v.getD c 0).rotateRight 12)
  let v := v.set a (v.getD a 0 + v.getD b 0 + y)
  let v := v.set d ((v.getD d 0 ^^^ v.getD a 0).rotateRight 8)
  let v := v.set c (v.getD c 0 + v.getD d 0)
  v.set b ((v.getD b 0 ^^^ v.getD c 0).rotateRight 7)

/-- Columns, then diagonals. -/
def round (m v : List Word) (sigma : ℕ) : List Word :=
  let s (index : ℕ) : Word := m.getD (sigma / 16 ^ (15 - index) % 16) 0
  let v := G v 0 4 8 12 (s 0) (s 1)
  let v := G v 1 5 9 13 (s 2) (s 3)
  let v := G v 2 6 10 14 (s 4) (s 5)
  let v := G v 3 7 11 15 (s 6) (s 7)
  let v := G v 0 5 10 15 (s 8) (s 9)
  let v := G v 1 6 11 12 (s 10) (s 11)
  let v := G v 2 7 8 13 (s 12) (s 13)
  G v 3 4 9 14 (s 14) (s 15)

/-- The compression of a block that ends at octet `t`, the last one or not. -/
def F (h m : List Word) (t : ℕ) (last : Bool) : List Word :=
  let v := h ++ IV
  let v := v.set 12 (v.getD 12 0 ^^^ BitVec.ofNat 32 t)
  let v := v.set 13 (v.getD 13 0 ^^^ BitVec.ofNat 32 (t / 2 ^ 32))
  let v := if last then v.set 14 (v.getD 14 0 ^^^ BitVec.allOnes 32) else v
  let v := SIGMA.foldl (round m) v
  (List.range 8).map fun index => h.getD index 0 ^^^ v.getD index 0 ^^^ v.getD (index + 8) 0

/-- The words of a block, their least octets first. -/
def words (block : Bytes) : List Word :=
  (List.range 16).map fun index =>
    BitVec.ofNat 32 (∑ octet : Fin 4, (block.getD (4 * index + octet) 0).toNat * 256 ^ octet.val)

/-- The blocks of the data behind the first `t` octets. The last one, full or not, has the flag. -/
def compressed (h : List Word) (t : ℕ) (data : Bytes) : List Word :=
  if data.length ≤ 64 then F h (words (data ++ List.replicate (64 - data.length) 0)) (t + data.length) true
  else compressed (F h (words (data.take 64)) (t + 64) false) (t + 64) (data.drop 64)
termination_by data.length
decreasing_by
  rw [List.length_drop]
  omega

/-- The digest of `nn` octets. -/
def blake2s (nn : ℕ) (key message : Bytes) : Bytes :=
  let parameters : Word := 0x01010000 ^^^ BitVec.ofNat 32 key.length <<< 8 ^^^ BitVec.ofNat 32 nn
  let padded := if key = [] then [] else key ++ List.replicate (64 - key.length) 0
  let h := compressed (IV.set 0 (IV.getD 0 0 ^^^ parameters)) 0 (padded ++ message)
  (h.flatMap fun word => ByteOrder.littleEndian 4 word.toNat).take nn

example : blake2s 32 [] [0x61, 0x62, 0x63] =
    [0x50, 0x8C, 0x5E, 0x8C, 0x32, 0x7C, 0x14, 0xE2, 0xE1, 0xA7, 0x2B, 0xA3, 0x4E, 0xEB, 0x45, 0x2F,
      0x37, 0x45, 0x8B, 0x20, 0x9E, 0xD6, 0x3A, 0x29, 0x4D, 0x99, 0x9B, 0x4C, 0x86, 0x67, 0x59, 0x82] := by
  decide +kernel

theorem compressed_block {h : List Word} {t : ℕ} {block more : Bytes} (full : block.length = 64) (some : more ≠ []) :
    compressed h t (block ++ more) = compressed (F h (words block) (t + 64) false) (t + 64) more := by
  have positive := List.length_pos_iff.mpr some
  rw [compressed, if_neg (by rw [List.length_append]; omega), List.take_left' full, List.drop_left' full]

theorem compressed_length (h : List Word) (t : ℕ) (data : Bytes) : (compressed h t data).length = 8 := by
  fun_induction compressed with
  | case1 => simp [F]
  | case2 _ _ _ _ ih => exact ih

theorem blake2s_length (key message : Bytes) : (blake2s 32 key message).length = 32 := by
  simp [blake2s, List.length_flatMap, compressed_length]

end Rfc7693
