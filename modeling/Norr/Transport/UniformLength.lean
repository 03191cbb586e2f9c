import Norr.Lib.Returns
import Norr.Transport.Obfuscation

/-! What uniform_length hides: the lengths of obfuscated datagrams under a configuration of the parser. -/

namespace Norr

open Returns

namespace Config

/-- What the parser guarantees of the padding. -/
structure Padded (config : Config) : Prop where
  junk : 0 < config.obfuscation.junkMax
  bucket : config.obfuscation.lengthBucket = 256

theorem assign_padded (sectionName key value : List Char) {config : Config} (padded : config.Padded) :
    Returns Padded (assign sectionName key value config) := by
  obtain ⟨junk, bucket⟩ := padded
  simp only [assign]
  repeat' (refine ite (fun _ => ?_) (fun _ => ?_))
  all_goals try exact error _
  all_goals try exact ok ⟨junk, bucket⟩
  all_goals try exact bind fun _ => ok ⟨junk, bucket⟩
  all_goals try exact bind fun _ => unless_thrown fun _ => ok ⟨junk, bucket⟩
  · -- transport.junk_max
    refine bind fun most => unless_thrown fun inside => ok ⟨?_, bucket⟩
    rw [not_or, Nat.not_lt, kMaximumJunkLength] at inside
    change 0 < UInt8.ofNat most
    rw [UInt8.lt_iff_toNat_lt, UInt8.toNat_ofNat', Nat.mod_eq_of_lt (by omega)]
    exact Nat.pos_of_ne_zero inside.1
  · -- transport.sni
    cases sniPool value with
    | nil => exact error _
    | cons front rest => exact ok ⟨junk, bucket⟩

theorem parseSection_padded (number : ℕ) (line : List Char) {progress : Progress} (padded : progress.config.Padded) :
    Returns (·.config.Padded) (parseSection number line progress) := by
  obtain ⟨junk, bucket⟩ := padded
  simp only [parseSection]
  repeat' (refine ite (fun _ => ?_) (fun _ => ?_))
  all_goals try exact error _
  all_goals exact ok ⟨junk, bucket⟩

theorem parseEntry_padded (number : ℕ) (line : List Char) {progress : Progress} (padded : progress.config.Padded) :
    Returns (·.config.Padded) (parseEntry number line progress) := by
  simp only [parseEntry]
  refine ite (fun _ => error _) fun _ => ?_
  cases unquote (trim ((line.dropWhile (· ≠ '=')).drop 1)) with
  | error failure => exact error _
  | ok value =>
    refine ite (fun _ => error _) fun _ => ite (fun _ => error _) fun _ => ?_
    have kept := assign_padded progress.sectionName (trim (line.takeWhile (· ≠ '='))) value padded
    revert kept
    cases assign progress.sectionName (trim (line.takeWhile (· ≠ '='))) value progress.config with
    | error failure => exact fun _ => error _
    | ok config => exact fun kept => ok (kept config rfl)

theorem parseLine_padded (number : ℕ) (raw : List Char) {progress : Progress} (padded : progress.config.Padded) :
    Returns (·.config.Padded) (parseLine number raw progress) := by
  simp only [parseLine]
  split
  · exact ok padded
  · exact parseSection_padded _ _ padded
  · exact parseEntry_padded _ _ padded

theorem parseLines_padded (number : ℕ) (lines : List (List Char)) {progress : Progress}
    (padded : progress.config.Padded) : Returns (·.config.Padded) (parseLines number lines progress) := by
  induction lines generalizing number progress with
  | nil => exact ok padded
  | cons raw lines ih =>
    have first := parseLine_padded number raw padded
    rw [parseLines]
    revert first
    cases parseLine number raw progress with
    | error failure => exact fun _ => error _
    | ok after => exact fun first => ih (number + 1) (first after rfl)

theorem validate_padded (present : List (List Char)) {config : Config} (padded : config.Padded) :
    Returns Padded (validate present config) := by
  obtain ⟨junk, bucket⟩ := padded
  simp only [validate]
  refine unless_thrown fun _ => unless_thrown fun _ => ?_
  refine bind fun peers => bind fun _ => ?_
  repeat' (refine unless_thrown (fun _ => ?_))
  apply ok
  split_ifs
  · exact ⟨junk, bucket⟩
  · exact ⟨junk, bucket⟩

end Config

theorem parseConfig_padded {text : List Char} {config : Config} (parsed : parseConfig text = .ok config) :
    config.Padded := by
  have initially : ({} : Config.Progress).config.Padded := ⟨by decide, rfl⟩
  have lines := Config.parseLines_padded 1 (text.splitOn '\n') initially
  rw [parseConfig] at parsed
  revert parsed lines
  cases Config.parseLines 1 (text.splitOn '\n') {} with
  | error failure => exact fun failed => by cases failed
  | ok progress => exact fun parsed lines => Config.validate_padded _ (lines progress rfl) config parsed

namespace Obfuscator

/-- The random generator never fails. -/
def Available (random : Randomness) : Prop := ∀ call, (random call).isSome

variable {cipher : StreamCipher} {random : Randomness}

theorem nextJunkByte_ready (available : Available random) (obfuscator : Obfuscator) :
    (obfuscator.nextJunkByte random).2.junkReady = obfuscator.junkReady := by
  unfold nextJunkByte
  split_ifs
  · obtain ⟨pool, drawn⟩ := Option.isSome_iff_exists.mp (available obfuscator.draws)
    rw [drawn]
  · rfl

theorem nextNonce_ready (random : Randomness) (obfuscator : Obfuscator) :
    (obfuscator.nextNonce random).2.junkReady = obfuscator.junkReady := by
  have refilled : (obfuscator.refillNonces random).junkReady = obfuscator.junkReady := by
    unfold refillNonces
    split_ifs
    · cases random obfuscator.draws <;> rfl
    · rfl
  simp only [nextNonce]
  split_ifs
  · exact refilled
  · exact refilled

theorem drawEntropy_ready (available : Available random) (count : ℕ) (entropy : UInt32) (obfuscator : Obfuscator) :
    (drawEntropy random count entropy obfuscator).2.junkReady = obfuscator.junkReady := by
  induction count generalizing entropy obfuscator with
  | zero => rfl
  | succ count ih => exact (ih _ _).trans (nextJunkByte_ready available obfuscator)

theorem junkBytes_ready (available : Available random) (count : ℕ) (obfuscator : Obfuscator) :
    (junkBytes random count obfuscator).2.junkReady = obfuscator.junkReady := by
  induction count generalizing obfuscator with
  | zero => rfl
  | succ count ih => exact (ih _).trans (nextJunkByte_ready available obfuscator)

theorem chooseJunk_ready (available : Available random) (obfuscator : Obfuscator) (size : ℕ) :
    (obfuscator.chooseJunk random size).2.junkReady = obfuscator.junkReady := by
  have drawn := drawEntropy_ready available 4 0 obfuscator
  unfold chooseJunk
  split_ifs
  · dsimp only
    split_ifs <;> exact drawn
  · rfl

theorem wrap_ready (available : Available random) (obfuscator : Obfuscator) (plaintext : Bytes) (room : ℕ) :
    (obfuscator.wrap cipher random plaintext room).2.junkReady = obfuscator.junkReady := by
  have named := nextNonce_ready random obfuscator
  have chosen := (chooseJunk_ready available (obfuscator.nextNonce random).2 plaintext.length).trans named
  simp only [wrap]
  split_ifs
  · rfl
  · exact named
  · exact named
  · split <;> exact named
  · exact chosen
  · have filled := (junkBytes_ready available
      ((obfuscator.nextNonce random).2.chooseJunk random plaintext.length).1 _).trans chosen
    split <;> exact filled

/-- The obfuscators of a node with this padding: wrapping changes neither the configuration nor readiness. -/
structure Uniform (config : ObfuscationConfig) (obfuscator : Obfuscator) : Prop where
  config : obfuscator.config = config
  ready : obfuscator.junkReady = true

variable {config : ObfuscationConfig}

theorem Uniform.wrapped (available : Available random) {obfuscator : Obfuscator}
    (uniform : obfuscator.Uniform config)
    (plaintext : Bytes) (room : ℕ) : (obfuscator.wrap cipher random plaintext room).2.Uniform config :=
  ⟨(wrap_setup cipher random obfuscator plaintext room).config.trans uniform.config,
    (wrap_ready available obfuscator plaintext room).trans uniform.ready⟩

theorem chooseJunk_uniform (available : Available random) {obfuscator : Obfuscator}
    (ready : obfuscator.junkReady = true)
    (padding : obfuscator.config.junkPadding = true) (junk : 0 < obfuscator.config.junkMax)
    (uniform : obfuscator.config.uniformLength = true) (size : ℕ) :
    (obfuscator.chooseJunk random size).1 = floorJunk obfuscator.config size := by
  have still := (drawEntropy_ready available 4 0 obfuscator).trans ready
  have same := (drawEntropy_setup random 4 0 obfuscator).config
  rw [chooseJunk, if_pos ⟨padding, junk, ready⟩]
  simp only [still, same, junkLength, uniform, if_true]

theorem wrap_uniform_length (cipher : StreamCipher) (available : Available random) {obfuscator : Obfuscator}
    (setup : obfuscator.Uniform config) (mode : config.mode = .full) (padding : config.junkPadding = true)
    (junk : 0 < config.junkMax) (uniform : config.uniformLength = true) (plaintext : Bytes) :
    ∃ wire, (obfuscator.wrap cipher random plaintext (plaintext.length + obfuscator.maxOverhead)).1 = .ok wire ∧
      wire.length = kObfuscationNonceSize + kJunkLengthFieldSize + floorJunk config plaintext.length +
        plaintext.length := by
  obtain ⟨rfl, ready⟩ := setup
  have named := nextNonce_setup random obfuscator
  have chosen := chooseJunk_uniform available ((nextNonce_ready random obfuscator).trans ready)
    (named.config ▸ padding) (named.config ▸ junk) (named.config ▸ uniform) plaintext.length
  rw [named.config] at chosen
  have bounded := floorJunk_le obfuscator.config plaintext.length
  have fits : kObfuscationNonceSize + kJunkLengthFieldSize +
      ((obfuscator.nextNonce random).2.chooseJunk random plaintext.length).1 + plaintext.length ≤
        plaintext.length + obfuscator.maxOverhead := by
    rw [chosen, maxOverhead, mode, padding]
    simp only [if_true]
    omega
  obtain ⟨masked, done, wrapped⟩ := wrap_full random mode fits
  refine ⟨_, wrapped, ?_⟩
  rw [wrap_full_length done, chosen]

/-- The multiple of the bucket that hides a plaintext of this size, its length field included. -/
def bucketed (bucket size : ℕ) : ℕ := (kJunkLengthFieldSize + size + bucket - 1) / bucket * bucket

theorem floorJunk_eq (default : config.lengthBucket = 256) (size : ℕ) :
    floorJunk config size = if bucketed 256 size ≤ kJunkLengthFieldSize + size + config.junkMax.toNat then
      bucketed 256 size - (kJunkLengthFieldSize + size) else 0 := by
  have gap : toBucket config size = bucketed 256 size - (kJunkLengthFieldSize + size) := by
    simp only [toBucket, default, bucketed, kJunkLengthFieldSize]
    change (256 - (1 + size) % 256) % 256 = _
    omega
  rw [floorJunk, gap]
  congr 1
  rw [Nat.sub_le_iff_le_add', eq_iff_iff]

def wrapAll (cipher : StreamCipher) (random : Randomness) (obfuscator : Obfuscator) (plaintexts : List Bytes) :
    Obfuscator :=
  plaintexts.foldl (fun obfuscator plaintext =>
    (obfuscator.wrap cipher random plaintext (plaintext.length + obfuscator.maxOverhead)).2) obfuscator

theorem Uniform.wrapAll (available : Available random) {obfuscator : Obfuscator}
    (uniform : obfuscator.Uniform config)
    (plaintexts : List Bytes) : (obfuscator.wrapAll cipher random plaintexts).Uniform config := by
  induction plaintexts generalizing obfuscator with
  | nil => exact uniform
  | cons plaintext plaintexts ih => exact ih (uniform.wrapped available plaintext _)

end Obfuscator

open Obfuscator in
/-- Two runs of configured obfuscators, each after any earlier datagrams. -/
theorem uniform_length_hides_iff {text : List Char} {config : Config} (parsed : parseConfig text = .ok config)
    (mode : config.obfuscation.mode = .full) (padding : config.obfuscation.junkPadding = true)
    (uniform : config.obfuscation.uniformLength = true) (crypto : Crypto) (cipher : StreamCipher)
    {firstRandom secondRandom : Randomness} (firstAvailable : Available firstRandom)
    (secondAvailable : Available secondRandom) (first second : Obfuscator) (preshared : PresharedKey)
    (firstSeed secondSeed : Option (Octets 8)) (firstEarlier secondEarlier : List Bytes) (p q : Bytes)
    (same : bucketed 256 p.length = bucketed 256 q.length) :
    let firstRun :=
      (first.configure crypto config.obfuscation preshared firstSeed).wrapAll cipher firstRandom firstEarlier
    let secondRun :=
      (second.configure crypto config.obfuscation preshared secondSeed).wrapAll cipher secondRandom secondEarlier
    ∃ firstWire secondWire,
      (firstRun.wrap cipher firstRandom p (p.length + firstRun.maxOverhead)).1 = .ok firstWire ∧
      (secondRun.wrap cipher secondRandom q (q.length + secondRun.maxOverhead)).1 = .ok secondWire ∧
      (firstWire.length = secondWire.length ↔ p.length = q.length ∨
        (bucketed 256 p.length ≤ kJunkLengthFieldSize + p.length + config.obfuscation.junkMax.toNat ∧
          bucketed 256 q.length ≤ kJunkLengthFieldSize + q.length + config.obfuscation.junkMax.toNat)) := by
  intro firstRun secondRun
  obtain ⟨junk, bucket⟩ := parseConfig_padded parsed
  have configured (obfuscator : Obfuscator) (seed : Option (Octets 8)) :
      (obfuscator.configure crypto config.obfuscation preshared seed).Uniform config.obfuscation :=
    ⟨rfl, by simp [configure, padding, junk]⟩
  have firstSetup : firstRun.Uniform config.obfuscation :=
    (configured first firstSeed).wrapAll firstAvailable firstEarlier
  have secondSetup : secondRun.Uniform config.obfuscation :=
    (configured second secondSeed).wrapAll secondAvailable secondEarlier
  obtain ⟨firstWire, firstWrapped, firstLength⟩ :=
    wrap_uniform_length cipher firstAvailable firstSetup mode padding junk uniform p
  obtain ⟨secondWire, secondWrapped, secondLength⟩ :=
    wrap_uniform_length cipher secondAvailable secondSetup mode padding junk uniform q
  refine ⟨firstWire, secondWire, firstWrapped, secondWrapped, ?_⟩
  rw [firstLength, secondLength, floorJunk_eq bucket, floorJunk_eq bucket, same]
  have above (size : ℕ) : kJunkLengthFieldSize + size ≤ bucketed 256 size := by
    simp only [bucketed, kJunkLengthFieldSize]
    omega
  have firstAbove := above p.length
  have secondAbove := above q.length
  rw [same] at firstAbove
  split_ifs <;> omega

def uniformNode : List Char :=
  ("[node]\nlisten_port = 51820\n[identity]\nkey_file = /etc/norr/key\n" ++
    "[transport]\nobfuscation = full\njunk = true\nuniform_length = true\n").toList

def uniformDefault : ObfuscationConfig := { mode := .full, junkPadding := true, uniformLength := true }

theorem uniformNode_parsed : ∃ config, parseConfig uniformNode = .ok config ∧
    config.obfuscation = uniformDefault := by
  have parsed : (parseConfig uniformNode).toOption.map (·.obfuscation) = some uniformDefault := by decide +kernel
  revert parsed
  cases parseConfig uniformNode with
  | error failure => exact fun failed => by cases failed
  | ok config => exact fun parsed => ⟨config, rfl, Option.some_inj.mp parsed⟩

namespace Obfuscator

def defaultRun : Obfuscator := Obfuscator.configure .plain {} uniformDefault (Octets.zero 32) none

end Obfuscator

open Obfuscator StreamCipher Randomness in
theorem long_gaps_reached : ∃ config, parseConfig uniformNode = .ok config ∧
    ∃ firstWire secondWire,
      (defaultRun.wrap flipping steady (List.replicate 200 0) (200 + defaultRun.maxOverhead)).1 = .ok firstWire ∧
      (defaultRun.wrap flipping steady (List.replicate 240 0) (240 + defaultRun.maxOverhead)).1 = .ok secondWire ∧
      firstWire.length = secondWire.length := by
  obtain ⟨config, parsed, padding⟩ := uniformNode_parsed
  have available : Available steady := fun _ => rfl
  have hides := uniform_length_hides_iff parsed (by rw [padding]; rfl) (by rw [padding]; rfl) (by rw [padding]; rfl)
    .plain flipping available available {} {} (Octets.zero 32) none none [] []
    (List.replicate 200 0) (List.replicate 240 0) (by rw [List.length_replicate, List.length_replicate]; rfl)
  rw [padding, List.length_replicate, List.length_replicate] at hides
  obtain ⟨firstWire, secondWire, first, second, equal⟩ := hides
  exact ⟨config, parsed, firstWire, secondWire, first, second, equal.mpr (.inr (by decide))⟩

open Obfuscator StreamCipher Randomness in
/-- The default limit on junk is smaller than the default bucket: two short datagrams of one bucket keep
their own lengths. -/
theorem short_datagrams_differ : ∃ config, parseConfig uniformNode = .ok config ∧
    config.obfuscation = uniformDefault ∧ bucketed 256 10 = bucketed 256 20 ∧
    ∃ firstWire secondWire,
      (defaultRun.wrap flipping steady (List.replicate 10 0) (10 + defaultRun.maxOverhead)).1 = .ok firstWire ∧
      (defaultRun.wrap flipping steady (List.replicate 20 0) (20 + defaultRun.maxOverhead)).1 = .ok secondWire ∧
      firstWire.length = 19 ∧ secondWire.length = 29 := by
  obtain ⟨config, parsed, padding⟩ := uniformNode_parsed
  have setup : defaultRun.Uniform uniformDefault := ⟨rfl, rfl⟩
  have available : Available steady := fun _ => rfl
  obtain ⟨firstWire, first, firstLength⟩ :=
    wrap_uniform_length flipping available setup rfl rfl (by decide) rfl (List.replicate 10 0)
  obtain ⟨secondWire, second, secondLength⟩ :=
    wrap_uniform_length flipping available setup rfl rfl (by decide) rfl (List.replicate 20 0)
  rw [List.length_replicate] at first firstLength second secondLength
  exact ⟨config, parsed, padding, by decide, firstWire, secondWire, first, second, firstLength, secondLength⟩

end Norr
