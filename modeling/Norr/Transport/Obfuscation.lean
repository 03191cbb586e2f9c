import Norr.Runtime.Config

/-! The Obfuscator of `obfuscation.cpp`. The stream cipher is any involution under a key and a nonce, and
the random generator any sequence of answers, failures included. -/

namespace Norr

abbrev ObfuscationKey := Octets 32

def kObfuscationNonceSize : ℕ := 8
def kJunkLengthFieldSize : ℕ := 1
def kPoolSize : ℕ := 4096

inductive ObfuscationError
  | disabled
  | bufferTooSmall
  | invalidNonce
  | decryptionFailed
  | malformed
  | junkOverflow
  deriving DecidableEq, Repr

structure StreamCipher where
  apply : Octets 32 → Octets 8 → Bytes → Bytes
  length_apply : ∀ key nonce data, (apply key nonce data).length = data.length
  involutive : ∀ key nonce data, apply key nonce (apply key nonce data) = data

/-- The answers of random_bytes for a pool, call by call. -/
abbrev Randomness := ℕ → Option (Octets kPoolSize)

/-- A cipher and a generator to run the Obfuscator with. -/
def StreamCipher.flipping : StreamCipher where
  apply _ _ data := data.map (~~~ ·)
  length_apply _ _ _ := List.length_map _
  involutive _ _ data := by
    rw [List.map_map]
    exact List.map_id'' (fun byte => UInt8.not_not) data

def Randomness.steady : Randomness := fun _ => some (Octets.zero kPoolSize)

def keystreamXor (cipher : StreamCipher) (key : Octets 32) (nonce data : Bytes) : Except CryptoError Bytes :=
  if nonce.length ≠ kObfuscationNonceSize then .error .invalidNonce
  else if data = [] then .ok []
  else .ok (cipher.apply key (Octets.ofBytes 8 nonce) data)

def kObfuscationDomain : String := "norr-obfuscation-v1"

def deriveObfuscationKey (crypto : Crypto) (preshared : PresharedKey) : ObfuscationKey :=
  crypto.hash kObfuscationDomain.toUTF8.toList preshared.toList

/-- `draws` counts the calls of random_bytes that fill a pool. -/
structure Obfuscator where
  config : ObfuscationConfig := {}
  key : ObfuscationKey := Octets.zero 32
  nonceCounter : UInt64 := 0
  junkPool : Octets kPoolSize := Octets.zero kPoolSize
  junkPos : ℕ := kPoolSize
  junkReady : Bool := false
  noncePool : Octets kPoolSize := Octets.zero kPoolSize
  noncePos : ℕ := kPoolSize
  draws : ℕ := 0

namespace Obfuscator

/-- `seed` is what random_bytes returned for the counter. -/
def configure (crypto : Crypto) (obfuscator : Obfuscator) (config : ObfuscationConfig) (preshared : PresharedKey)
    (seed : Option (Octets 8)) : Obfuscator :=
  { obfuscator with
    config
    key := deriveObfuscationKey crypto preshared
    nonceCounter := UInt64.ofNat (ByteOrder.ofBigEndian (seed.getD (Octets.zero 8)).toList)
    junkPos := kPoolSize
    junkReady := config.junkPadding && 0 < config.junkMax
    noncePos := kPoolSize }

def enabled (obfuscator : Obfuscator) : Bool := obfuscator.config.mode ≠ .off

def nextJunkByte (random : Randomness) (obfuscator : Obfuscator) : UInt8 × Obfuscator :=
  if kPoolSize ≤ obfuscator.junkPos then
    match random obfuscator.draws with
    | none => (0, { obfuscator with junkReady := false, draws := obfuscator.draws + 1 })
    | some pool => (pool.toList.getD 0 0, { obfuscator with
        junkPool := pool, junkPos := 1, draws := obfuscator.draws + 1 })
  else
    (obfuscator.junkPool.toList.getD obfuscator.junkPos 0,
      { obfuscator with junkPos := obfuscator.junkPos + 1 })

def refillNonces (random : Randomness) (obfuscator : Obfuscator) : Obfuscator :=
  if kPoolSize < obfuscator.noncePos + kObfuscationNonceSize then
    match random obfuscator.draws with
    | none => { obfuscator with draws := obfuscator.draws + 1 }
    | some pool => { obfuscator with noncePool := pool, noncePos := 0, draws := obfuscator.draws + 1 }
  else obfuscator

def mix (counter : UInt64) : UInt64 :=
  let value := counter + 0x9E3779B97F4A7C15
  let value := (value ^^^ (value >>> 30)) * 0xBF58476D1CE4E5B9
  let value := (value ^^^ (value >>> 27)) * 0x94D049BB133111EB
  value ^^^ (value >>> 31)

/-- Without a filled pool the nonce comes from the counter. -/
def nextNonce (random : Randomness) (obfuscator : Obfuscator) : Bytes × Obfuscator :=
  let refilled := obfuscator.refillNonces random
  if refilled.noncePos + kObfuscationNonceSize ≤ kPoolSize then
    (ByteOrder.slice refilled.noncePool.toList refilled.noncePos kObfuscationNonceSize,
      { refilled with noncePos := refilled.noncePos + kObfuscationNonceSize })
  else
    (ByteOrder.writeU64 (mix refilled.nonceCounter), { refilled with nonceCounter := refilled.nonceCounter + 1 })

def mask (cipher : StreamCipher) (obfuscator : Obfuscator) (nonce region : Bytes) : Option Bytes :=
  (keystreamXor cipher obfuscator.key nonce region).toOption

def maxOverhead (obfuscator : Obfuscator) : ℕ :=
  match obfuscator.config.mode with
  | .off => 0
  | .headerMask => kObfuscationNonceSize
  | .full => kObfuscationNonceSize + kJunkLengthFieldSize +
      if obfuscator.config.junkPadding then obfuscator.config.junkMax.toNat else 0

def drawEntropy (random : Randomness) : ℕ → UInt32 → Obfuscator → UInt32 × Obfuscator
  | 0, entropy, obfuscator => (entropy, obfuscator)
  | count + 1, entropy, obfuscator =>
    let drawn := obfuscator.nextJunkByte random
    drawEntropy random count ((entropy <<< 8) ||| drawn.1.toUInt32) drawn.2

/-- How much is missing to a multiple of the bucket. -/
def toBucket (config : ObfuscationConfig) (size : ℕ) : ℕ :=
  let bucket := if config.lengthBucket = 0 then 1 else config.lengthBucket.toNat
  (bucket - (kJunkLengthFieldSize + size) % bucket) % bucket

def floorJunk (config : ObfuscationConfig) (size : ℕ) : ℕ :=
  if toBucket config size ≤ config.junkMax.toNat then toBucket config size else 0

def junkLength (config : ObfuscationConfig) (size : ℕ) (entropy : UInt32) : ℕ :=
  if config.uniformLength then floorJunk config size
  else floorJunk config size + entropy.toNat % (config.junkMax.toNat - floorJunk config size + 1)

def chooseJunk (random : Randomness) (obfuscator : Obfuscator) (size : ℕ) : ℕ × Obfuscator :=
  if obfuscator.config.junkPadding ∧ 0 < obfuscator.config.junkMax ∧ obfuscator.junkReady then
    let drawn := drawEntropy random 4 0 obfuscator
    if drawn.2.junkReady then (junkLength drawn.2.config size drawn.1, drawn.2) else (0, drawn.2)
  else (0, obfuscator)

def junkBytes (random : Randomness) : ℕ → Obfuscator → Bytes × Obfuscator
  | 0, obfuscator => ([], obfuscator)
  | count + 1, obfuscator =>
    let drawn := obfuscator.nextJunkByte random
    let rest := junkBytes random count drawn.2
    (drawn.1 :: rest.1, rest.2)

/-- The bytes written into a buffer of `room` octets. -/
def wrap (cipher : StreamCipher) (random : Randomness) (obfuscator : Obfuscator) (plaintext : Bytes) (room : ℕ) :
    Except ObfuscationError Bytes × Obfuscator :=
  if obfuscator.config.mode = .off then (.error .disabled, obfuscator)
  else
    let (nonce, obfuscator) := obfuscator.nextNonce random
    if room < kObfuscationNonceSize then (.error .bufferTooSmall, obfuscator)
    else if obfuscator.config.mode = .headerMask then
      if room - kObfuscationNonceSize < plaintext.length then (.error .bufferTooSmall, obfuscator)
      else
        match obfuscator.mask cipher nonce (plaintext.take kPacketHeaderSize) with
        | none => (.error .decryptionFailed, obfuscator)
        | some masked => (.ok (nonce ++ masked ++ plaintext.drop kPacketHeaderSize), obfuscator)
    else
      let (junk, obfuscator) := obfuscator.chooseJunk random plaintext.length
      if room - kObfuscationNonceSize < kJunkLengthFieldSize + junk + plaintext.length then
        (.error .bufferTooSmall, obfuscator)
      else
        let (filler, obfuscator) := junkBytes random junk obfuscator
        match obfuscator.mask cipher nonce (UInt8.ofNat junk :: filler ++ plaintext) with
        | none => (.error .decryptionFailed, obfuscator)
        | some masked => (.ok (nonce ++ masked), obfuscator)

def unwrap (cipher : StreamCipher) (obfuscator : Obfuscator) (wire : Bytes) (room : ℕ) :
    Except ObfuscationError Bytes :=
  if obfuscator.config.mode = .off then .error .disabled
  else if wire.length < kObfuscationNonceSize then .error .malformed
  else
    let nonce := wire.take kObfuscationNonceSize
    let region := wire.drop kObfuscationNonceSize
    if obfuscator.config.mode = .headerMask then
      if room < region.length then .error .bufferTooSmall
      else
        match obfuscator.mask cipher nonce (region.take kPacketHeaderSize) with
        | none => .error .decryptionFailed
        | some opened => .ok (opened ++ region.drop kPacketHeaderSize)
    else if region = [] then .error .malformed
    else
      match obfuscator.mask cipher nonce region with
      | none => .error .decryptionFailed
      | some plain =>
        let junk := (plain.getD 0 0).toNat
        if plain.length < kJunkLengthFieldSize + junk then .error .junkOverflow
        else if room < plain.length - kJunkLengthFieldSize - junk then .error .bufferTooSmall
        else .ok (plain.drop (kJunkLengthFieldSize + junk))

/-- What no call but configure changes. -/
structure SameSetup (before after : Obfuscator) : Prop where
  config : after.config = before.config
  key : after.key = before.key

variable {cipher : StreamCipher} {random : Randomness} {obfuscator : Obfuscator}

theorem SameSetup.trans {first second third : Obfuscator} (before : first.SameSetup second)
    (after : second.SameSetup third) : first.SameSetup third :=
  ⟨after.config.trans before.config, after.key.trans before.key⟩

theorem nextJunkByte_setup (random : Randomness) (obfuscator : Obfuscator) :
    obfuscator.SameSetup (obfuscator.nextJunkByte random).2 := by
  unfold nextJunkByte
  split_ifs
  · cases random obfuscator.draws <;> exact ⟨rfl, rfl⟩
  · exact ⟨rfl, rfl⟩

theorem refillNonces_setup (random : Randomness) (obfuscator : Obfuscator) :
    obfuscator.SameSetup (obfuscator.refillNonces random) := by
  unfold refillNonces
  split_ifs
  · cases random obfuscator.draws <;> exact ⟨rfl, rfl⟩
  · exact ⟨rfl, rfl⟩

theorem nextNonce_setup (random : Randomness) (obfuscator : Obfuscator) :
    obfuscator.SameSetup (obfuscator.nextNonce random).2 := by
  have refilled := obfuscator.refillNonces_setup random
  simp only [nextNonce]
  split_ifs
  · exact ⟨refilled.config, refilled.key⟩
  · exact ⟨refilled.config, refilled.key⟩

theorem nextNonce_length (random : Randomness) (obfuscator : Obfuscator) :
    (obfuscator.nextNonce random).1.length = kObfuscationNonceSize := by
  simp only [nextNonce]
  split_ifs with room
  · simp only [ByteOrder.slice, List.length_take, List.length_drop, Octets.toList_length]
    omega
  · exact ByteOrder.writeU64_length _

theorem drawEntropy_setup (random : Randomness) (count : ℕ) (entropy : UInt32) (obfuscator : Obfuscator) :
    obfuscator.SameSetup (drawEntropy random count entropy obfuscator).2 := by
  induction count generalizing entropy obfuscator with
  | zero => exact ⟨rfl, rfl⟩
  | succ count ih => exact (nextJunkByte_setup random obfuscator).trans (ih _ _)

theorem chooseJunk_setup (random : Randomness) (obfuscator : Obfuscator) (size : ℕ) :
    obfuscator.SameSetup (obfuscator.chooseJunk random size).2 := by
  have drawn := drawEntropy_setup random 4 0 obfuscator
  unfold chooseJunk
  split_ifs
  · dsimp only
    split_ifs <;> exact drawn
  · exact ⟨rfl, rfl⟩

theorem junkBytes_setup (random : Randomness) (count : ℕ) (obfuscator : Obfuscator) :
    obfuscator.SameSetup (junkBytes random count obfuscator).2 := by
  induction count generalizing obfuscator with
  | zero => exact ⟨rfl, rfl⟩
  | succ count ih => exact (nextJunkByte_setup random obfuscator).trans (ih _)

theorem junkBytes_length (random : Randomness) (count : ℕ) (obfuscator : Obfuscator) :
    (junkBytes random count obfuscator).1.length = count := by
  induction count generalizing obfuscator with
  | zero => rfl
  | succ count ih => exact congrArg (· + 1) (ih _)

theorem wrap_setup (cipher : StreamCipher) (random : Randomness) (obfuscator : Obfuscator) (plaintext : Bytes)
    (room : ℕ) : obfuscator.SameSetup (obfuscator.wrap cipher random plaintext room).2 := by
  have named := nextNonce_setup random obfuscator
  have chosen := named.trans (chooseJunk_setup random (obfuscator.nextNonce random).2 plaintext.length)
  simp only [wrap]
  split_ifs
  · exact ⟨rfl, rfl⟩
  · exact named
  · exact named
  · cases (obfuscator.nextNonce random).2.mask cipher (obfuscator.nextNonce random).1
      (plaintext.take kPacketHeaderSize) <;> exact named
  · exact chosen
  · have filled := chosen.trans (junkBytes_setup random
      ((obfuscator.nextNonce random).2.chooseJunk random plaintext.length).1 _)
    split <;> exact filled

theorem floorJunk_le (config : ObfuscationConfig) (size : ℕ) : floorJunk config size ≤ config.junkMax.toNat := by
  unfold floorJunk
  split_ifs with fits
  · exact fits
  · exact Nat.zero_le _

theorem junkLength_le (config : ObfuscationConfig) (size : ℕ) (entropy : UInt32) :
    junkLength config size entropy ≤ config.junkMax.toNat := by
  have floor := floorJunk_le config size
  have span : entropy.toNat % (config.junkMax.toNat - floorJunk config size + 1) <
      config.junkMax.toNat - floorJunk config size + 1 := Nat.mod_lt _ (Nat.succ_pos _)
  unfold junkLength
  split_ifs
  · exact floor
  · omega

/-- The junk of a datagram, as max_overhead reserves it. -/
theorem chooseJunk_le (random : Randomness) (obfuscator : Obfuscator) (size : ℕ) :
    (obfuscator.chooseJunk random size).1 ≤
      if obfuscator.config.junkPadding then obfuscator.config.junkMax.toNat else 0 := by
  have same := (drawEntropy_setup random 4 0 obfuscator).config
  unfold chooseJunk
  split_ifs with padded padding padding
  · dsimp only
    split_ifs
    · rw [same]
      exact junkLength_le _ _ _
    · exact Nat.zero_le _
  · exact absurd padded.1 padding
  · exact Nat.zero_le _
  · exact le_rfl

variable {nonce masked plaintext : Bytes} {receiver : Obfuscator} {room : ℕ}

theorem mask_length {region : Bytes} (done : obfuscator.mask cipher nonce region = some masked) :
    masked.length = region.length := by
  unfold mask keystreamXor at done
  split_ifs at done with sized empty
  · cases done
  · cases done
    rw [empty]
  · cases done
    exact cipher.length_apply _ _ _

theorem mask_succeeds (cipher : StreamCipher) (obfuscator : Obfuscator) (region : Bytes)
    (sized : nonce.length = kObfuscationNonceSize) :
    ∃ masked, obfuscator.mask cipher nonce region = some masked := by
  unfold mask keystreamXor
  rw [if_neg (not_not.mpr sized)]
  split_ifs
  · exact ⟨_, rfl⟩
  · exact ⟨_, rfl⟩

theorem mask_mask (keys : receiver.key = obfuscator.key) {region : Bytes}
    (done : obfuscator.mask cipher nonce region = some masked) :
    receiver.mask cipher nonce masked = some region := by
  have length := mask_length done
  unfold mask keystreamXor at done ⊢
  rw [keys]
  split_ifs at done with sized empty
  · cases done
  · cases done
    rw [if_neg sized, if_pos rfl, empty]
    rfl
  · have filled : masked ≠ [] := by
      intro nothing
      rw [nothing] at length
      exact empty (List.length_eq_zero_iff.mp length.symm)
    cases done
    rw [if_neg sized, if_neg filled, cipher.involutive]
    rfl

theorem wrap_headerMask (random : Randomness) (mode : obfuscator.config.mode = .headerMask)
    (fits : kObfuscationNonceSize + plaintext.length ≤ room) :
    ∃ masked, obfuscator.mask cipher (obfuscator.nextNonce random).1 (plaintext.take kPacketHeaderSize) =
        some masked ∧
      (obfuscator.wrap cipher random plaintext room).1 =
        .ok ((obfuscator.nextNonce random).1 ++ masked ++ plaintext.drop kPacketHeaderSize) := by
  obtain ⟨masked, done⟩ := mask_succeeds cipher obfuscator (plaintext.take kPacketHeaderSize)
    (nextNonce_length random obfuscator)
  obtain ⟨config, key⟩ := nextNonce_setup random obfuscator
  have there : (obfuscator.nextNonce random).2.mask cipher (obfuscator.nextNonce random).1
      (plaintext.take kPacketHeaderSize) = some masked := by
    rw [← done, mask, mask, key]
  refine ⟨masked, done, ?_⟩
  simp only [wrap, mode, config, there, reduceCtorEq, if_false, if_true]
  rw [if_neg (by omega), if_neg (by omega)]

theorem wrap_full (random : Randomness) (mode : obfuscator.config.mode = .full)
    (fits : kObfuscationNonceSize + kJunkLengthFieldSize +
      ((obfuscator.nextNonce random).2.chooseJunk random plaintext.length).1 + plaintext.length ≤ room) :
    let chosen := (obfuscator.nextNonce random).2.chooseJunk random plaintext.length
    ∃ masked, obfuscator.mask cipher (obfuscator.nextNonce random).1
        (UInt8.ofNat chosen.1 :: (junkBytes random chosen.1 chosen.2).1 ++ plaintext) = some masked ∧
      (obfuscator.wrap cipher random plaintext room).1 = .ok ((obfuscator.nextNonce random).1 ++ masked) := by
  intro chosen
  have setup := ((nextNonce_setup random obfuscator).trans (chooseJunk_setup random _ plaintext.length)).trans
    (junkBytes_setup random chosen.1 chosen.2)
  obtain ⟨masked, done⟩ := mask_succeeds cipher obfuscator
    (UInt8.ofNat chosen.1 :: (junkBytes random chosen.1 chosen.2).1 ++ plaintext)
    (nextNonce_length random obfuscator)
  have there : (junkBytes random chosen.1 chosen.2).2.mask cipher (obfuscator.nextNonce random).1
      (UInt8.ofNat chosen.1 :: (junkBytes random chosen.1 chosen.2).1 ++ plaintext) = some masked := by
    rw [← done, mask, mask, setup.key]
  refine ⟨masked, done, ?_⟩
  simp only [wrap, mode, (nextNonce_setup random obfuscator).config, reduceCtorEq, if_false]
  rw [if_neg (by omega), if_neg (by omega)]
  simp only [there, chosen]

theorem wrap_full_length {junk : ℕ} {chosen : Obfuscator}
    (done : obfuscator.mask cipher (obfuscator.nextNonce random).1
      (UInt8.ofNat junk :: (junkBytes random junk chosen).1 ++ plaintext) = some masked) :
    ((obfuscator.nextNonce random).1 ++ masked).length =
      kObfuscationNonceSize + kJunkLengthFieldSize + junk + plaintext.length := by
  have masks := mask_length done
  have sized := nextNonce_length random obfuscator
  simp only [List.length_append, List.length_cons, junkBytes_length, kJunkLengthFieldSize] at masks ⊢
  omega

theorem unwrap_headerMask (mode : receiver.config.mode = .headerMask) (sized : nonce.length = kObfuscationNonceSize)
    (opened : receiver.mask cipher nonce masked = some (plaintext.take kPacketHeaderSize))
    (fits : plaintext.length ≤ room) :
    receiver.unwrap cipher (nonce ++ masked ++ plaintext.drop kPacketHeaderSize) room = .ok plaintext := by
  have length := mask_length opened
  rw [List.length_take] at length
  have head : (masked ++ plaintext.drop kPacketHeaderSize).take kPacketHeaderSize = masked ∧
      (masked ++ plaintext.drop kPacketHeaderSize).drop kPacketHeaderSize = plaintext.drop kPacketHeaderSize := by
    rcases le_total kPacketHeaderSize plaintext.length with long | short
    · have whole : masked.length = kPacketHeaderSize := by omega
      exact ⟨List.take_left' whole, List.drop_left' whole⟩
    · have bounded : masked.length ≤ kPacketHeaderSize := by omega
      rw [List.drop_eq_nil_of_le short, List.append_nil]
      exact ⟨List.take_of_length_le bounded, List.drop_eq_nil_of_le bounded⟩
  have region : (masked ++ plaintext.drop kPacketHeaderSize).length = plaintext.length := by
    rw [List.length_append, List.length_drop]
    omega
  have total : ¬ (nonce ++ (masked ++ plaintext.drop kPacketHeaderSize)).length < kObfuscationNonceSize := by
    rw [List.length_append]
    omega
  rw [List.append_assoc]
  simp only [unwrap, mode, reduceCtorEq, if_false, if_true, List.take_left' sized, List.drop_left' sized,
    head, opened, region, List.take_append_drop, total]
  rw [if_neg (by omega)]

theorem unwrap_full (mode : receiver.config.mode = .full) {filler : Bytes} {junk : ℕ}
    (sized : nonce.length = kObfuscationNonceSize) (filled : filler.length = junk) (small : junk < 256)
    (opened : receiver.mask cipher nonce masked = some (UInt8.ofNat junk :: filler ++ plaintext))
    (fits : plaintext.length ≤ room) : receiver.unwrap cipher (nonce ++ masked) room = .ok plaintext := by
  have length := mask_length opened
  have nonempty : masked ≠ [] := by
    intro nothing
    simp [nothing] at length
  have byte : (UInt8.ofNat junk).toNat = junk := by
    rw [UInt8.toNat_ofNat']
    exact Nat.mod_eq_of_lt small
  have total : ¬ (nonce ++ masked).length < kObfuscationNonceSize := by
    rw [List.length_append]
    omega
  have shape :
      (UInt8.ofNat junk :: filler ++ plaintext).length = kJunkLengthFieldSize + junk + plaintext.length := by
    simp only [List.cons_append, List.length_cons, List.length_append, kJunkLengthFieldSize]
    omega
  have payload : (UInt8.ofNat junk :: filler ++ plaintext).drop (kJunkLengthFieldSize + junk) = plaintext := by
    apply List.drop_left'
    simp only [List.length_cons, kJunkLengthFieldSize]
    omega
  have head : (UInt8.ofNat junk :: filler ++ plaintext).getD 0 0 = UInt8.ofNat junk := rfl
  simp only [unwrap, mode, reduceCtorEq, if_false, List.take_left' sized, List.drop_left' sized, opened, nonempty,
    total, head, byte, shape, payload]
  rw [if_neg (by omega), if_neg (by omega)]

/-- The buffer the carriers reserve is always enough, and the other side reads the datagram back. -/
theorem wrap_unwrap (cipher : StreamCipher) (random : Randomness) {obfuscator : Obfuscator}
    (mode : obfuscator.config.mode ≠ .off) (modes : receiver.config.mode = obfuscator.config.mode)
    (keys : receiver.key = obfuscator.key) (plaintext : Bytes) :
    ∃ wire, (obfuscator.wrap cipher random plaintext (plaintext.length + obfuscator.maxOverhead)).1 = .ok wire ∧
      plaintext.length ≤ wire.length ∧ wire.length ≤ plaintext.length + obfuscator.maxOverhead ∧
      ∀ room, plaintext.length ≤ room → receiver.unwrap cipher wire room = .ok plaintext := by
  have sized := nextNonce_length random obfuscator
  cases chosen : obfuscator.config.mode with
  | off => exact absurd chosen mode
  | headerMask =>
    have overhead : obfuscator.maxOverhead = kObfuscationNonceSize := by rw [maxOverhead, chosen]
    rw [overhead]
    have fits : kObfuscationNonceSize + plaintext.length ≤ plaintext.length + kObfuscationNonceSize := by omega
    obtain ⟨masked, done, wrapped⟩ := wrap_headerMask random chosen fits
    have length : ((obfuscator.nextNonce random).1 ++ masked ++ plaintext.drop kPacketHeaderSize).length =
        kObfuscationNonceSize + plaintext.length := by
      have masks := mask_length done
      simp only [List.length_append, List.length_take, List.length_drop] at masks ⊢
      omega
    exact ⟨_, wrapped, by omega, by omega,
      fun room fits => unwrap_headerMask (modes.trans chosen) sized (mask_mask keys done) fits⟩
  | full =>
    have setup := nextNonce_setup random obfuscator
    have bounded := chooseJunk_le random (obfuscator.nextNonce random).2 plaintext.length
    rw [setup.config] at bounded
    have overhead : obfuscator.maxOverhead = kObfuscationNonceSize + kJunkLengthFieldSize +
        if obfuscator.config.junkPadding then obfuscator.config.junkMax.toNat else 0 := by rw [maxOverhead, chosen]
    have small : (if obfuscator.config.junkPadding then obfuscator.config.junkMax.toNat else 0) < 256 := by
      have byte := obfuscator.config.junkMax.toNat_lt
      split_ifs <;> omega
    rw [overhead]
    have fits : kObfuscationNonceSize + kJunkLengthFieldSize +
        ((obfuscator.nextNonce random).2.chooseJunk random plaintext.length).1 + plaintext.length ≤
          plaintext.length + (kObfuscationNonceSize + kJunkLengthFieldSize +
            if obfuscator.config.junkPadding then obfuscator.config.junkMax.toNat else 0) := by omega
    obtain ⟨masked, done, wrapped⟩ := wrap_full random chosen fits
    have length := wrap_full_length done
    exact ⟨_, wrapped, by omega, by omega, fun room fits => unwrap_full (modes.trans chosen) sized
      (junkBytes_length _ _ _) (by omega) (mask_mask keys done) fits⟩

end Obfuscator

end Norr
