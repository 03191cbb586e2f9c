import Norr.Lib.Rfc7693
import Norr.Lib.Words

/-! BLAKE2s with its lazily flushed buffer, and the HMAC and HKDF built on it. -/

namespace Norr

def kInitialisationVector : Vector UInt32 8 :=
  #v[0x6A09E667, 0xBB67AE85, 0x3C6EF372, 0xA54FF53A, 0x510E527F, 0x9B05688C, 0x1F83D9AB, 0x5BE0CD19]

def kSigma : List (Vector (Fin 16) 16) :=
  [#v[0, 1, 2, 3, 4, 5, 6, 7, 8, 9, 10, 11, 12, 13, 14, 15],
    #v[14, 10, 4, 8, 9, 15, 13, 6, 1, 12, 0, 2, 11, 7, 5, 3],
    #v[11, 8, 12, 0, 5, 2, 15, 13, 10, 14, 3, 6, 7, 1, 9, 4],
    #v[7, 9, 3, 1, 13, 12, 11, 14, 2, 6, 5, 10, 4, 0, 15, 8],
    #v[9, 0, 5, 7, 2, 4, 10, 15, 14, 1, 11, 12, 6, 8, 3, 13],
    #v[2, 12, 6, 10, 0, 11, 8, 3, 4, 13, 7, 5, 15, 14, 1, 9],
    #v[12, 5, 1, 15, 14, 13, 4, 10, 0, 7, 6, 3, 9, 2, 8, 11],
    #v[13, 11, 7, 14, 12, 1, 3, 9, 5, 0, 15, 4, 8, 6, 2, 10],
    #v[6, 15, 14, 9, 11, 3, 0, 8, 12, 2, 13, 7, 1, 4, 10, 5],
    #v[10, 2, 8, 4, 7, 6, 1, 5, 15, 11, 9, 14, 3, 12, 13, 0]]

def rotateRight (value bits : UInt32) : UInt32 := value >>> bits ||| value <<< (32 - bits)

def loadLe32 (bytes : Bytes) (offset : ℕ) : UInt32 :=
  let octet (index : ℕ) : UInt32 := (bytes.getD (offset + index) 0).toUInt32
  octet 0 ||| octet 1 <<< 8 ||| octet 2 <<< 16 ||| octet 3 <<< 24

def storeLe32 (value : UInt32) : Bytes :=
  [value.toUInt8, (value >>> 8).toUInt8, (value >>> 16).toUInt8, (value >>> 24).toUInt8]

def mix (v : Vector UInt32 16) (a b c d : Fin 16) (x y : UInt32) : Vector UInt32 16 :=
  let v := v.set a (v[a] + v[b] + x)
  let v := v.set d (rotateRight (v[d] ^^^ v[a]) 16)
  let v := v.set c (v[c] + v[d])
  let v := v.set b (rotateRight (v[b] ^^^ v[c]) 12)
  let v := v.set a (v[a] + v[b] + y)
  let v := v.set d (rotateRight (v[d] ^^^ v[a]) 8)
  let v := v.set c (v[c] + v[d])
  v.set b (rotateRight (v[b] ^^^ v[c]) 7)

structure Blake2s where
  state : Vector UInt32 8
  buffer : Bytes
  buffered : ℕ
  counter : UInt64
  digestSize : ℕ
  finished : Bool
  deriving DecidableEq, Repr

namespace Blake2s

def kBlockSize : ℕ := 64

def kMaximumDigestSize : ℕ := 32

def kMaximumKeySize : ℕ := 32

/-- A round of `compress`. -/
def mixRound (message v : Vector UInt32 16) (s : Vector (Fin 16) 16) : Vector UInt32 16 :=
  let v := mix v 0 4 8 12 message[s[0]] message[s[1]]
  let v := mix v 1 5 9 13 message[s[2]] message[s[3]]
  let v := mix v 2 6 10 14 message[s[4]] message[s[5]]
  let v := mix v 3 7 11 15 message[s[6]] message[s[7]]
  let v := mix v 0 5 10 15 message[s[8]] message[s[9]]
  let v := mix v 1 6 11 12 message[s[10]] message[s[11]]
  let v := mix v 2 7 8 13 message[s[12]] message[s[13]]
  mix v 3 4 9 14 message[s[14]] message[s[15]]

/-- `compress`, with the members it reads. -/
def compress (state : Vector UInt32 8) (buffer : Bytes) (counter : UInt64) (last : Bool) : Vector UInt32 8 :=
  let message := Vector.ofFn fun index : Fin 16 => loadLe32 buffer (index * 4)
  let v := state ++ kInitialisationVector
  let v := v.set 12 (v[12] ^^^ counter.toUInt32)
  let v := v.set 13 (v[13] ^^^ (counter >>> 32).toUInt32)
  let v := if last then v.set 14 (~~~ v[14]) else v
  let v := kSigma.foldl (mixRound message) v
  Vector.ofFn fun index : Fin 8 => state[index] ^^^ (v[index.val] ^^^ v[index.val + 8])

/-- A full buffer is compressed only once there is more to take. -/
def flush (hash : Blake2s) : Blake2s :=
  if hash.buffered = kBlockSize then
    let counter := hash.counter + UInt64.ofNat kBlockSize
    { hash with counter, state := compress hash.state hash.buffer counter false, buffered := 0 }
  else hash

/-- The loop of `update`, with the rounds it has left and the input from its offset on. -/
def absorb : ℕ → Blake2s → Bytes → Blake2s
  | 0, hash, _ => hash
  | rounds + 1, hash, input =>
    if input = [] then hash
    else
      let hash := hash.flush
      let take := min (kBlockSize - hash.buffered) input.length
      absorb rounds
        { hash with
          buffer := hash.buffer.take hash.buffered ++ input.take take ++ hash.buffer.drop (hash.buffered + take)
          buffered := hash.buffered + take }
        (input.drop take)

def update (hash : Blake2s) (input : Bytes) : Blake2s :=
  if hash.finished then hash else absorb input.length hash input

def initialWords (parameters : UInt32) : Vector UInt32 8 :=
  kInitialisationVector.set 0 (kInitialisationVector[0] ^^^ parameters)

def create (digestSize : ℕ) (key : Bytes) : Blake2s :=
  let digestSize := max 1 (min digestSize kMaximumDigestSize)
  let keyLength := min key.length kMaximumKeySize
  let parameters : UInt32 := (0x01010000 : UInt32) ||| UInt32.ofNat keyLength <<< 8 ||| UInt32.ofNat digestSize
  let hash : Blake2s := {
    state := initialWords parameters
    buffer := List.replicate kBlockSize 0
    buffered := 0
    counter := 0
    digestSize
    finished := false }
  if 0 < keyLength then hash.update (key.take keyLength ++ List.replicate (kBlockSize - keyLength) 0) else hash

def finish (hash : Blake2s) (out : Bytes) : Blake2s × Bytes :=
  if hash.finished then (hash, out)
  else
    let counter := hash.counter + UInt64.ofNat hash.buffered
    let buffer := hash.buffer.take hash.buffered ++ List.replicate (kBlockSize - hash.buffered) 0
    let state := compress hash.state buffer counter true
    let digest := state.toList.flatMap storeLe32
    let length := min out.length hash.digestSize
    ({ hash with state, buffer, counter, finished := true }, digest.take length ++ out.drop length)

def updateAll (hash : Blake2s) (chunks : List Bytes) : Blake2s := chunks.foldl update hash

def emptyDigest : Bytes := List.replicate kMaximumDigestSize 0

def hash (input key : Bytes) : Bytes :=
  (((create kMaximumDigestSize key).update input).finish emptyDigest).2

def hmacPad (key : Bytes) (octet : UInt8) : Bytes :=
  let short := if kBlockSize < key.length then hash key [] else key
  (short ++ List.replicate (kBlockSize - short.length) 0).map (· ^^^ octet)

def hmacBlake2s (key message : Bytes) : Bytes :=
  let inner := ((create kMaximumDigestSize []).update (hmacPad key 0x36)).update message
  let outer := ((create kMaximumDigestSize []).update (hmacPad key 0x5C)).update (inner.finish emptyDigest).2
  (outer.finish emptyDigest).2

/-- One round of `hkdf_expand`, which has the HMAC written out. -/
def expandBlock (key info : Bytes) (counter : UInt8) (previous : Bytes) : Bytes :=
  let inner := (create kMaximumDigestSize []).update (hmacPad key 0x36)
  let inner := if 1 < counter then inner.update previous else inner
  let inner := (inner.update info).update [counter]
  let outer := ((create kMaximumDigestSize []).update (hmacPad key 0x5C)).update (inner.finish emptyDigest).2
  (outer.finish previous).2

def expandLoop (key info : Bytes) (size : ℕ) : ℕ → UInt8 → Bytes → Bytes → Bytes
  | 0, _, _, produced => produced
  | rounds + 1, counter, previous, produced =>
    if produced.length < size then
      let previous := expandBlock key info counter previous
      let take := min kMaximumDigestSize (size - produced.length)
      expandLoop key info size rounds (counter + 1) previous (produced ++ previous.take take)
    else produced

def hkdfExpand (key info : Bytes) (size : ℕ) : Option Bytes :=
  if 255 * kMaximumDigestSize < size then none
  else some (expandLoop key info size size 1 emptyDigest [])

theorem toBitVec_rotateRight (value : UInt32) {places : UInt32} (range : 1 ≤ places.toNat ∧ places.toNat ≤ 31) :
    (rotateRight value places).toBitVec = value.toBitVec.rotateRight places.toNat := by
  -- a shift takes its count modulo 32, and the count of the left one is a difference in 32 bits
  have left : (4294967296 - places.toNat) % 32 = 32 - places.toNat := by omega
  have right : places.toNat % 32 = places.toNat := by omega
  simp [rotateRight, BitVec.rotateRight_def, left, right]

/-- The words as the RFC has them. -/
def bits {size : ℕ} (words : Vector UInt32 size) : List Rfc7693.Word := words.toList.map UInt32.toBitVec

variable {size : ℕ} (v : Vector UInt32 size) {index : ℕ} (inside : index < size) (value : UInt32)

theorem bits_get : v[index].toBitVec = (bits v).getD index 0 := by
  simp [bits, inside]

theorem bits_set : bits (v.set index value) = (bits v).set index value.toBitVec := by
  simp [bits, Vector.toList_set]

theorem mix_bits (v : Vector UInt32 16) (a b c d : Fin 16) (x y : UInt32) :
    bits (mix v a b c d x y) = Rfc7693.G (bits v) a b c d x.toBitVec y.toBitVec := by
  simp (disch := decide) only [mix, Rfc7693.G, Fin.getElem_fin, bits_set, bits_get, UInt32.toBitVec_add,
    UInt32.toBitVec_xor, toBitVec_rotateRight]
  rfl

theorem sigma_digits : kSigma = Rfc7693.SIGMA.map fun sigma =>
    Vector.ofFn fun index : Fin 16 => Fin.ofNat 16 (sigma / 16 ^ (15 - index.val)) := by
  decide +kernel

theorem mixRound_bits (message v : Vector UInt32 16) (sigma : ℕ) :
    bits (mixRound message v (Vector.ofFn fun index => Fin.ofNat 16 (sigma / 16 ^ (15 - index.val)))) =
      Rfc7693.round (bits message) (bits v) sigma := by
  simp only [mixRound, Rfc7693.round, mix_bits, Fin.getElem_fin, bits_get, Vector.getElem_ofFn, Fin.val_ofNat]
  rfl

theorem iv_bits : bits kInitialisationVector = Rfc7693.IV := by decide +kernel

theorem loadLe32_bits (bytes : Bytes) (offset : ℕ) : (loadLe32 bytes offset).toBitVec =
    BitVec.ofNat 32 (∑ octet : Fin 4, (bytes.getD (offset + octet) 0).toNat * 256 ^ octet.val) := by
  have reversed : loadLe32 bytes offset = Words.word32 [bytes.getD (offset + 3) 0, bytes.getD (offset + 2) 0,
      bytes.getD (offset + 1) 0, bytes.getD offset 0] 0 := by
    simp only [loadLe32, Words.word32, List.getD_cons_zero, List.getD_cons_succ, Nat.zero_add, Nat.add_zero,
      UInt32.or_comm, UInt32.or_assoc]
  have value : (loadLe32 bytes offset).toNat =
      ∑ octet : Fin 4, (bytes.getD (offset + octet) 0).toNat * 256 ^ octet.val := by
    rw [reversed, Words.word32_toNat, Fin.sum_univ_four]
    simp [Nat.add_comm, Nat.add_assoc]
  rw [← value]
  exact BitVec.eq_of_toNat_eq (by simp)

theorem storeLe32_bits (value : UInt32) : storeLe32 value = ByteOrder.littleEndian 4 value.toBitVec.toNat := by
  have octet (count : UInt32) : (value >>> count).toUInt8 = UInt8.ofNat (value.toNat / 2 ^ (count.toNat % 32)) := by
    apply UInt8.toNat.inj
    simp [Nat.shiftRight_eq_div_pow]
  simp [storeLe32, ByteOrder.littleEndian, octet, Nat.div_div_eq_div_mul]

theorem message_bits (buffer : Bytes) :
    bits (Vector.ofFn fun index : Fin 16 => loadLe32 buffer (index * 4)) = Rfc7693.words buffer := by
  apply List.ext_getElem
  · simp [bits, Rfc7693.words]
  · intro index _ _
    simp [bits, Rfc7693.words, loadLe32_bits, Nat.mul_comm]

theorem compress_bits (state : Vector UInt32 8) (buffer : Bytes) (count : ℕ) (last : Bool) :
    bits (compress state buffer (UInt64.ofNat count) last) =
      Rfc7693.F (bits state) (Rfc7693.words buffer) count last := by
  have low : (UInt64.ofNat count).toUInt32.toBitVec = BitVec.ofNat 32 count := by
    apply BitVec.eq_of_toNat_eq
    simp
  have high : (UInt64.ofNat count >>> 32).toUInt32.toBitVec = BitVec.ofNat 32 (count / 2 ^ 32) := by
    have shifted : count % 2 ^ 64 / 2 ^ 32 % 2 ^ 32 = count / 2 ^ 32 % 2 ^ 32 := by omega
    apply BitVec.eq_of_toNat_eq
    simpa [Nat.shiftRight_eq_div_pow] using shifted
  have joined : bits (state ++ kInitialisationVector) = bits state ++ Rfc7693.IV := by
    rw [← iv_bits, bits, bits, bits, Vector.toList_append, List.map_append]
  have rounds (message v : Vector UInt32 16) : bits (kSigma.foldl (mixRound message) v) =
      Rfc7693.SIGMA.foldl (Rfc7693.round (bits message)) (bits v) := by
    rw [sigma_digits, List.foldl_map]
    exact (List.foldl_hom bits fun v sigma => (mixRound_bits message v sigma).symm).symm
  have start (v : Vector UInt32 16) : bits (if last then v.set 14 (~~~ v[14]) else v) =
      if last then (bits v).set 14 ((bits v).getD 14 0 ^^^ BitVec.allOnes 32) else bits v := by
    cases last
    · rfl
    · simp only [if_true, bits_set, UInt32.toBitVec_not, bits_get, BitVec.xor_allOnes]
  apply List.ext_getElem
  · simp [bits, Rfc7693.F]
  · intro index inside _
    simp only [compress, Rfc7693.F, bits, List.getElem_map, Vector.getElem_toList, Vector.getElem_ofFn,
      List.getElem_range]
    simp only [UInt32.toBitVec_xor, BitVec.xor_assoc, Fin.getElem_fin, bits_get, rounds, message_bits, start, joined,
      low, high, bits_set]
    rfl

/-- The hash has taken the data: whatever follows, its digest is that of the buffered octets and what follows. -/
structure Absorbed (words : List Rfc7693.Word) (digestSize : ℕ) (data : Bytes) (hash : Blake2s) : Prop where
  unfinished : hash.finished = false
  digest : hash.digestSize = digestSize
  size : hash.buffer.length = kBlockSize
  inside : hash.buffered ≤ kBlockSize
  follows : ∃ count, hash.counter = UInt64.ofNat count ∧ ∀ more, Rfc7693.compressed words 0 (data ++ more) =
    Rfc7693.compressed (bits hash.state) count (hash.buffer.take hash.buffered ++ more)

variable {words : List Rfc7693.Word} {digestSize : ℕ} {data input : Bytes} {hash : Blake2s}

/-- After the flush there is room, and something must follow. -/
theorem Absorbed.flush (absorbed : Absorbed words digestSize data hash) :
    hash.flush.finished = false ∧ hash.flush.buffer = hash.buffer ∧ hash.flush.buffered < kBlockSize ∧
      hash.flush.digestSize = digestSize ∧
      ∃ count, hash.flush.counter = UInt64.ofNat count ∧ ∀ more ≠ [], Rfc7693.compressed words 0 (data ++ more) =
        Rfc7693.compressed (bits hash.flush.state) count (hash.buffer.take hash.flush.buffered ++ more) := by
  obtain ⟨count, counter, follows⟩ := absorbed.follows
  unfold Blake2s.flush
  split_ifs with full
  · refine ⟨absorbed.unfinished, rfl, Nat.succ_pos _, absorbed.digest, count + kBlockSize, ?_, fun more some => ?_⟩
    · rw [counter, UInt64.ofNat_add]
    · rw [follows, full, List.take_of_length_le absorbed.size.le, Rfc7693.compressed_block absorbed.size some,
        ← compress_bits, UInt64.ofNat_add, ← counter]
      rfl
  · exact ⟨absorbed.unfinished, rfl, lt_of_le_of_ne absorbed.inside full, absorbed.digest, count, counter,
      fun more _ => follows more⟩

theorem Absorbed.absorb (rounds : ℕ) (absorbed : Absorbed words digestSize data hash)
    (enough : input.length ≤ rounds) :
    Absorbed words digestSize (data ++ input) (absorb rounds hash input) := by
  induction rounds generalizing hash data input with
  | zero =>
    rw [List.length_eq_zero_iff.mp (Nat.le_zero.mp enough), List.append_nil]
    exact absorbed
  | succ rounds ih =>
    rw [Blake2s.absorb]
    split_ifs with empty
    · rw [empty, List.append_nil]
      exact absorbed
    · obtain ⟨unfinished, buffer, room, digest, count, counter, follows⟩ := absorbed.flush
      have positive := List.length_pos_iff.mpr empty
      have size := absorbed.size
      dsimp only
      rw [buffer]
      generalize hash.flush = flushed at *
      generalize taken : min (kBlockSize - flushed.buffered) input.length = take
      have bounds : 0 < take ∧ take ≤ input.length ∧ flushed.buffered + take ≤ kBlockSize := by omega
      have head : (hash.buffer.take flushed.buffered).length = flushed.buffered := by
        rw [List.length_take]
        omega
      have chunk : (input.take take).length = take := List.length_take_of_le bounds.2.1
      have next : Absorbed words digestSize (data ++ input.take take) { flushed with
          buffer := hash.buffer.take flushed.buffered ++ input.take take ++
            hash.buffer.drop (flushed.buffered + take)
          buffered := flushed.buffered + take } := by
        refine ⟨unfinished, digest, ?_, bounds.2.2, count, counter, fun more => ?_⟩
        · simp only [List.length_append, head, chunk, List.length_drop, size]
          omega
        · have whole : (hash.buffer.take flushed.buffered ++ input.take take ++
              hash.buffer.drop (flushed.buffered + take)).take (flushed.buffered + take) =
              hash.buffer.take flushed.buffered ++ input.take take :=
            List.take_left' (by rw [List.length_append, head, chunk])
          dsimp only
          rw [whole, List.append_assoc, List.append_assoc]
          apply follows
          intro none
          have lengths := congrArg List.length (List.append_eq_nil_iff.mp none).1
          rw [chunk, List.length_nil] at lengths
          omega
      have fewer : (input.drop take).length ≤ rounds := by
        rw [List.length_drop]
        omega
      have later := ih next fewer
      rwa [List.append_assoc, List.take_append_drop] at later

theorem Absorbed.update (absorbed : Absorbed words digestSize data hash) (input : Bytes) :
    Absorbed words digestSize (data ++ input) (hash.update input) := by
  rw [Blake2s.update, absorbed.unfinished]
  exact absorbed.absorb input.length le_rfl

theorem Absorbed.updateAll (absorbed : Absorbed words digestSize data hash) (chunks : List Bytes) :
    Absorbed words digestSize (data ++ chunks.flatten) (hash.updateAll chunks) := by
  induction chunks generalizing hash data with
  | nil => rwa [List.flatten_nil, List.append_nil]
  | cons chunk chunks ih =>
    rw [List.flatten_cons, ← List.append_assoc]
    exact ih (absorbed.update chunk)

theorem Absorbed.finish (absorbed : Absorbed words digestSize data hash) (out : Bytes) :
    (hash.finish out).2 = ((Rfc7693.compressed words 0 data).flatMap fun word =>
      ByteOrder.littleEndian 4 word.toNat).take (min out.length digestSize) ++
        out.drop (min out.length digestSize) := by
  obtain ⟨count, counter, follows⟩ := absorbed.follows
  have tail : (hash.buffer.take hash.buffered).length = hash.buffered :=
    List.length_take_of_le (absorbed.inside.trans_eq absorbed.size.symm)
  have whole := follows []
  rw [List.append_nil, List.append_nil, Rfc7693.compressed.eq_def (bits _), tail,
    if_pos (show _ ≤ 64 from absorbed.inside), ← compress_bits, UInt64.ofNat_add, ← counter] at whole
  rw [Blake2s.finish, absorbed.unfinished, whole, ← absorbed.digest, bits, List.flatMap_map]
  simp only [← storeLe32_bits]
  rfl

theorem parameters_bits : ∀ keyLength ≤ 32, ∀ digestSize ≤ 32,
    ((0x01010000 : UInt32) ||| UInt32.ofNat keyLength <<< 8 ||| UInt32.ofNat digestSize).toBitVec =
      0x01010000 ^^^ BitVec.ofNat 32 keyLength <<< 8 ^^^ BitVec.ofNat 32 digestSize := by
  decide +kernel

theorem absorbed_fresh (words : Vector UInt32 8) (digestSize : ℕ) :
    Absorbed (bits words) digestSize [] ⟨words, List.replicate kBlockSize 0, 0, 0, digestSize, false⟩ :=
  ⟨rfl, rfl, List.length_replicate, Nat.zero_le _, 0, rfl, fun _ => rfl⟩

/-- However the message is cut, the digest is that of RFC 7693. -/
theorem finish_updateAll (digestSize : ℕ) {key : Bytes} (short : key.length ≤ kMaximumKeySize) (chunks : List Bytes)
    (out : Bytes) :
    (((create digestSize key).updateAll chunks).finish out).2 =
      (Rfc7693.blake2s (max 1 (min digestSize kMaximumDigestSize)) key chunks.flatten).take out.length ++
        out.drop (max 1 (min digestSize kMaximumDigestSize)) := by
  have small : max 1 (min digestSize kMaximumDigestSize) ≤ 32 := by
    unfold kMaximumDigestSize
    omega
  have keyed : Absorbed (bits (initialWords ((0x01010000 : UInt32) ||| UInt32.ofNat key.length <<< 8 |||
      UInt32.ofNat (max 1 (min digestSize kMaximumDigestSize))))) (max 1 (min digestSize kMaximumDigestSize))
      (if key = [] then [] else key ++ List.replicate (kBlockSize - key.length) 0) (create digestSize key) := by
    simp only [create, min_eq_left short, List.take_length]
    by_cases none : key = []
    · rw [if_pos none, if_neg (by simp [none])]
      exact absorbed_fresh _ _
    · rw [if_neg none, if_pos (List.length_pos_iff.mpr none)]
      exact (absorbed_fresh _ _).update _
  rw [initialWords, bits_set, UInt32.toBitVec_xor, bits_get, iv_bits, parameters_bits _ short _ small] at keyed
  rw [(keyed.updateAll chunks).finish out, Rfc7693.blake2s, List.take_take]
  congr 1
  rcases le_total out.length (max 1 (min digestSize kMaximumDigestSize)) with less | more
  · rw [min_eq_left less, List.drop_eq_nil_of_le le_rfl, List.drop_eq_nil_of_le less]
  · rw [min_eq_right more]

/-- The whole digest of unkeyed data. -/
theorem finish_digest (chunks : List Bytes) {out : Bytes} (size : out.length = kMaximumDigestSize) :
    (((create kMaximumDigestSize []).updateAll chunks).finish out).2 =
      Rfc7693.blake2s kMaximumDigestSize [] chunks.flatten := by
  have clamped : max 1 (min kMaximumDigestSize kMaximumDigestSize) = kMaximumDigestSize := by decide
  rw [finish_updateAll _ (Nat.zero_le _), clamped, List.drop_eq_nil_of_le size.le, List.append_nil, size]
  exact List.take_of_length_le (List.length_take_le _ _)

/-- The HMAC of a message that reaches the inner hash in chunks. -/
theorem hmac_chunks (key : Bytes) (chunks : List Bytes) {out : Bytes} (size : out.length = kMaximumDigestSize) :
    (((create kMaximumDigestSize []).updateAll [hmacPad key 0x5C, (((create kMaximumDigestSize []).updateAll
      (hmacPad key 0x36 :: chunks)).finish emptyDigest).2]).finish out).2 = hmacBlake2s key chunks.flatten := by
  have empty : emptyDigest.length = kMaximumDigestSize := rfl
  have inner := finish_digest (hmacPad key 0x36 :: chunks) empty
  have whole := finish_digest [hmacPad key 0x36, chunks.flatten] empty
  have same : (hmacPad key 0x36 :: chunks).flatten = [hmacPad key 0x36, chunks.flatten].flatten := by simp
  rw [same, ← whole] at inner
  rw [inner, finish_digest _ size, ← finish_digest _ empty]
  rfl

theorem expandBlock_eq (key info : Bytes) (counter : UInt8) {previous : Bytes}
    (size : previous.length = kMaximumDigestSize) :
    expandBlock key info counter previous =
      hmacBlake2s key ((if 1 < counter then previous else []) ++ info ++ [counter]) := by
  by_cases later : 1 < counter
  · have chunks := hmac_chunks key [previous, info, [counter]] size
    rw [expandBlock, if_pos later, if_pos later]
    simpa [updateAll] using chunks
  · have chunks := hmac_chunks key [info, [counter]] size
    rw [expandBlock, if_neg later, if_neg later]
    simpa [updateAll] using chunks

theorem hmacBlake2s_length (key message : Bytes) : (hmacBlake2s key message).length = kMaximumDigestSize := by
  have chunks := hmac_chunks key [message] (show emptyDigest.length = _ from rfl)
  rw [finish_digest _ rfl] at chunks
  rw [← List.append_nil message]
  exact (congrArg List.length chunks).symm.trans (Rfc7693.blake2s_length _ _)

/-- T(i) of HKDF. -/
def expansion (key info : Bytes) : ℕ → Bytes
  | 0 => []
  | index + 1 => hmacBlake2s key (expansion key info index ++ info ++ [UInt8.ofNat (index + 1)])

/-- T(1) | T(2) | … | T(count) -/
def expansions (key info : Bytes) (count : ℕ) : Bytes :=
  (List.range count).flatMap fun index => expansion key info (index + 1)

theorem expansions_succ (key info : Bytes) (count : ℕ) :
    expansions key info (count + 1) = expansions key info count ++ expansion key info (count + 1) := by
  simp [expansions, List.range_succ]

theorem expansions_length (key info : Bytes) (count : ℕ) :
    (expansions key info count).length = count * kMaximumDigestSize := by
  induction count with
  | zero => rw [Nat.zero_mul]; rfl
  | succ count ih =>
    rw [expansions_succ, List.length_append, ih, expansion, hmacBlake2s_length, Nat.succ_mul]

theorem expansions_take (key info : Bytes) {size count total : ℕ} (enough : size ≤ count * kMaximumDigestSize)
    (more : count ≤ total) : (expansions key info total).take size = (expansions key info count).take size := by
  induction total, more using Nat.le_induction with
  | base => rfl
  | succ total more ih =>
    rw [expansions_succ, List.take_append_of_le_length, ih]
    rw [expansions_length]
    exact enough.trans (Nat.mul_le_mul_right _ more)

theorem expansion_succ {key info previous : Bytes} {index : ℕ} (small : index < 255)
    (long : previous.length = kMaximumDigestSize) (last : 0 < index → previous = expansion key info index) :
    expandBlock key info (UInt8.ofNat (index + 1)) previous = expansion key info (index + 1) := by
  have later : 1 < UInt8.ofNat (index + 1) ↔ 0 < index := by
    rw [UInt8.lt_iff_toNat_lt, UInt8.toNat_ofNat', Nat.mod_eq_of_lt (by omega)]
    exact Nat.succ_lt_succ_iff
  rw [expandBlock_eq _ _ _ long, expansion]
  by_cases some : 0 < index
  · rw [if_pos (later.mpr some), last some]
  · rw [if_neg (fun above => some (later.mp above)), Nat.eq_zero_of_not_pos some]
    rfl

theorem expandLoop_eq (key info : Bytes) {size : ℕ} (limit : size ≤ 255 * kMaximumDigestSize) (rounds index : ℕ)
    {previous : Bytes} (long : previous.length = kMaximumDigestSize)
    (last : 0 < index → previous = expansion key info index) (reached : index ≤ 255)
    (enough : size ≤ (index + rounds) * kMaximumDigestSize) :
    expandLoop key info size rounds (UInt8.ofNat (index + 1)) previous ((expansions key info index).take size) =
      (expansions key info 255).take size := by
  induction rounds generalizing index previous with
  | zero => exact (expansions_take key info enough reached).symm
  | succ rounds ih =>
    rw [expandLoop]
    split_ifs with short
    · rw [List.length_take, expansions_length] at short
      have below : index * kMaximumDigestSize < size := by omega
      have more : index < 255 := Nat.lt_of_mul_lt_mul_right (below.trans_le limit)
      have size' : (expansion key info (index + 1)).length = kMaximumDigestSize := hmacBlake2s_length _ _
      have produced : (expansions key info index).take size = expansions key info index :=
        List.take_of_length_le (by rw [expansions_length]; exact below.le)
      have grown : expansions key info index ++ (expansion key info (index + 1)).take
          (min kMaximumDigestSize (size - index * kMaximumDigestSize)) =
            (expansions key info (index + 1)).take size := by
        rw [expansions_succ, List.take_append, produced, expansions_length, ← List.take_take,
          List.take_of_length_le ((List.length_take_le' _ _).trans size'.le)]
      have next : UInt8.ofNat (index + 1) + 1 = UInt8.ofNat (index + 1 + 1) := (UInt8.ofNat_add _ _).symm
      dsimp only
      rw [expansion_succ more long last, produced, expansions_length, grown, next]
      exact ih (index + 1) size' (fun _ => rfl) more (by rwa [Nat.add_right_comm, Nat.add_assoc])
    · rw [List.length_take, expansions_length] at short
      exact (expansions_take key info (by omega) reached).symm

/-- For every way of cutting the message the digest is that of RFC 7693, and `hkdf_expand` gives the first
    octets of T(1) | T(2) | …. -/
theorem blake2s_and_hkdf_as_defined :
    (∀ (digestSize : ℕ) (key : Bytes), key.length ≤ kMaximumKeySize → ∀ (chunks : List Bytes) (out : Bytes),
      (((create digestSize key).updateAll chunks).finish out).2 =
        (Rfc7693.blake2s (max 1 (min digestSize kMaximumDigestSize)) key chunks.flatten).take out.length ++
          out.drop (max 1 (min digestSize kMaximumDigestSize))) ∧
      ∀ (key info : Bytes) (size : ℕ), size ≤ 255 * kMaximumDigestSize →
        hkdfExpand key info size = some ((expansions key info 255).take size) := by
  refine ⟨fun digestSize key short => finish_updateAll digestSize short, fun key info size limit => ?_⟩
  have positive : size ≤ (0 + size) * kMaximumDigestSize := by
    unfold kMaximumDigestSize
    omega
  have empty : emptyDigest.length = kMaximumDigestSize := rfl
  have done :=
    expandLoop_eq key info limit size 0 empty (fun none => absurd none (lt_irrefl 0)) (Nat.zero_le _) positive
  have nothing : (expansions key info 0).take size = [] := List.take_nil
  rw [nothing] at done
  rw [hkdfExpand, if_neg (not_lt.mpr limit)]
  exact congrArg some done

theorem abc_in_two_chunks : ([] : Bytes).length ≤ kMaximumKeySize ∧ 42 ≤ 255 * kMaximumDigestSize ∧
    (((create kMaximumDigestSize []).updateAll [[0x61], [], [0x62, 0x63]]).finish emptyDigest).2 =
      (Rfc7693.blake2s 32 [] [0x61, 0x62, 0x63]).take 32 ∧
    hkdfExpand [1] [2] 42 = some ((expansions [1] [2] 255).take 42) :=
  ⟨by decide, by decide, (blake2s_and_hkdf_as_defined.1 32 [] (by decide)
    [[0x61], [], [0x62, 0x63]] emptyDigest).trans (List.append_nil _),
    blake2s_and_hkdf_as_defined.2 [1] [2] 42 (by decide)⟩

end Blake2s

end Norr
