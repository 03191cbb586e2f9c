import Norr.Net.RateLimit
import Norr.Runtime.Config

/-! The CongestionController of `congestion.cpp`, with exact rationals for its doubles, and the one that
Runtime::start builds from a configuration. -/

namespace Norr

structure CongestionConfig where
  delayThreshold : Duration := milliseconds 5
  maximumJitterTolerance : Duration := milliseconds 15
  lossThreshold : ℚ := 1 / 10
  backoffDelay : ℚ := 85 / 100
  backoffLoss : ℚ := 75 / 100
  probeGain : ℚ := 105 / 100
  probeCeiling : ℚ := 125 / 100
  minimumRateBytes : ℚ := 8000
  maximumRateBytes : ℚ := 1250000000
  minimumRttWindow : Duration := seconds 10
  brutalRateBytes : ℚ := 0

inductive CongestionAction
  | hold
  | probe
  | backOffDelay
  | backOffLoss
  deriving DecidableEq, Repr

structure DeliverySample where
  rtt : Duration := 0
  bytesDelivered : UInt64 := 0
  bytesLost : UInt64 := 0
  interval : Duration := 0

structure CongestionStats where
  samples : ℕ := 0
  probes : ℕ := 0
  delayBackoffs : ℕ := 0
  lossBackoffs : ℕ := 0

structure RttSample where
  rtt : Duration
  observed : Instant

structure CongestionController where
  config : CongestionConfig := {}
  rate : ℚ := 125000
  deliveryRate : ℚ := 0
  lossFraction : ℚ := 0
  smoothedRtt : Duration := 0
  rttVariance : Duration := 0
  minimumRtt : Duration := 0
  minimumWindow : List RttSample := []
  primed : Bool := false
  lastAction : CongestionAction := .hold
  stats : CongestionStats := {}

/-- std::clamp. -/
def clamp (value lowest highest : ℚ) : ℚ :=
  if value < lowest then lowest else if highest < value then highest else value

namespace CongestionController

def queueingDelay (controller : CongestionController) : Duration :=
  if controller.smoothedRtt ≤ controller.minimumRtt then 0 else controller.smoothedRtt - controller.minimumRtt

def updateRtt (controller : CongestionController) (sample : Duration) (now : Instant) : CongestionController :=
  if sample ≤ 0 then controller
  else
    let smoothed :=
      if controller.primed then
        let difference :=
          if controller.smoothedRtt < sample then sample - controller.smoothedRtt
          else controller.smoothedRtt - sample
        { controller with
          rttVariance := (controller.rttVariance * 3 + difference).tdiv 4
          smoothedRtt := (controller.smoothedRtt * 7 + sample).tdiv 8 }
      else
        { controller with
          smoothedRtt := sample, rttVariance := sample.tdiv 2, minimumRtt := sample, primed := true }
    let window := (controller.minimumWindow ++ [RttSample.mk sample now]).dropWhile fun entry =>
      controller.config.minimumRttWindow < now - entry.observed
    { smoothed with
      minimumWindow := window
      minimumRtt := match window with
        | [] => sample
        | front :: _ => window.foldl (fun least entry => min least entry.rtt) front.rtt }

/-- The rate before the last clamp of observe, and the action it stands for. -/
def adjust (controller : CongestionController) : CongestionController :=
  let queueing := controller.queueingDelay
  let tolerance := min (controller.rttVariance * 2) controller.config.maximumJitterTolerance
  let delayLimit := tolerance + controller.config.delayThreshold
  if delayLimit < queueing then
    { controller with
      rate := controller.rate * controller.config.backoffDelay
      lastAction := .backOffDelay
      stats := { controller.stats with delayBackoffs := controller.stats.delayBackoffs + 1 } }
  else if controller.config.lossThreshold < controller.lossFraction then
    { controller with
      rate := controller.rate * controller.config.backoffLoss
      lastAction := .backOffLoss
      stats := { controller.stats with lossBackoffs := controller.stats.lossBackoffs + 1 } }
  else if queueing < controller.rttVariance then
    let probed := controller.rate * controller.config.probeGain
    let ceiling :=
      if 0 < controller.deliveryRate then controller.deliveryRate * controller.config.probeCeiling else probed
    { controller with
      rate := min probed ceiling
      lastAction := .probe
      stats := { controller.stats with probes := controller.stats.probes + 1 } }
  else { controller with lastAction := .hold }

def clampRate (controller : CongestionController) : CongestionController :=
  { controller with
    rate := clamp controller.rate controller.config.minimumRateBytes controller.config.maximumRateBytes }

/-- What a sample says about the path. -/
def measure (controller : CongestionController) (sample : DeliverySample) (now : Instant) : CongestionController :=
  let counted := { controller with stats := { controller.stats with samples := controller.stats.samples + 1 } }
  let timed := counted.updateRtt sample.rtt now
  let elapsed := inSeconds sample.interval
  let total := sample.bytesDelivered + sample.bytesLost
  { timed with
    deliveryRate := if 0 < elapsed then sample.bytesDelivered.toNat / elapsed else timed.deliveryRate
    lossFraction := if 0 < total then sample.bytesLost.toNat / total.toNat else 0 }

def observe (controller : CongestionController) (sample : DeliverySample) (now : Instant) : CongestionController :=
  let measured := controller.measure sample now
  if 0 < measured.config.brutalRateBytes then
    let deliverable := clamp (1 - measured.lossFraction) (1 / 5) 1
    clampRate { measured with rate := measured.config.brutalRateBytes / deliverable, lastAction := .hold }
  else measured.adjust.clampRate

end CongestionController

/-- The controller of Runtime::start. -/
def congestionFor (config : Config) : Option CongestionController :=
  if config.qosEnabled then
    some { config := { maximumRateBytes := config.qosRateBytes.toNat }, rate := config.qosRateBytes.toNat }
  else if 0 < config.brutalRateBytes then
    let brutal : ℚ := config.brutalRateBytes.toNat
    some { config := { brutalRateBytes := brutal, maximumRateBytes := brutal * 4 }, rate := brutal }
  else none

theorem clamp_le {lowest highest : ℚ} (ordered : lowest ≤ highest) (value : ℚ) :
    clamp value lowest highest ≤ highest := by
  unfold clamp
  split
  next => exact ordered
  next =>
    split
    next => exact le_rfl
    next fits => exact not_lt.mp fits

theorem le_clamp {lowest highest : ℚ} (ordered : lowest ≤ highest) (value : ℚ) :
    lowest ≤ clamp value lowest highest := by
  unfold clamp
  split
  next => exact le_rfl
  next fits =>
    split
    next => exact ordered
    next => exact not_lt.mp fits

namespace CongestionController

variable {controller : CongestionController}

@[simp]
theorem updateRtt_config (sample : Duration) (now : Instant) :
    (controller.updateRtt sample now).config = controller.config := by
  unfold updateRtt
  split
  next => rfl
  next => cases controller.primed <;> rfl

@[simp]
theorem adjust_config : controller.adjust.config = controller.config := by
  simp only [adjust]
  split
  next => rfl
  next =>
    split
    next => rfl
    next => split <;> rfl

theorem measure_config (controller : CongestionController) (sample : DeliverySample) (now : Instant) :
    (controller.measure sample now).config = controller.config := by
  simp [measure]

theorem clampRate_rate (controller : CongestionController) : controller.clampRate.rate =
    clamp controller.rate controller.config.minimumRateBytes controller.config.maximumRateBytes := rfl

/-- Every observe ends in the clamp of the controller's own bounds. -/
theorem observe_clamps (controller : CongestionController) (sample : DeliverySample) (now : Instant) :
    ∃ before, controller.observe sample now = clampRate before ∧ before.config = controller.config := by
  simp only [observe]
  split
  next => exact ⟨_, rfl, measure_config controller sample now⟩
  next => exact ⟨_, rfl, adjust_config.trans (measure_config controller sample now)⟩

theorem observe_config (controller : CongestionController) (sample : DeliverySample) (now : Instant) :
    (controller.observe sample now).config = controller.config := by
  obtain ⟨before, clamped, config⟩ := observe_clamps controller sample now
  rw [clamped, ← config]
  rfl

theorem observed_config (samples : List (DeliverySample × Instant)) :
    (samples.foldl (fun controller sample => controller.observe sample.1 sample.2) controller).config =
      controller.config := by
  induction samples generalizing controller with
  | nil => rfl
  | cons sample samples ih => rw [List.foldl_cons, ih, observe_config]

/-- The clamp has its bounds in order, and after every observe the rate is between them and within the
limit. -/
def KeepsLimit (controller : CongestionController) (limit : ℚ) : Prop :=
  controller.config.minimumRateBytes ≤ controller.config.maximumRateBytes ∧
    ∀ (samples : List (DeliverySample × Instant)) (sample : DeliverySample) (now : Instant),
      let before := samples.foldl (fun controller sample => controller.observe sample.1 sample.2) controller
      controller.config.minimumRateBytes ≤ (before.observe sample now).rate ∧
        (before.observe sample now).rate ≤ controller.config.maximumRateBytes ∧
        (before.observe sample now).rate ≤ limit

theorem keepsLimit_iff {limit : ℚ} (maximum : controller.config.maximumRateBytes = limit) :
    controller.KeepsLimit limit ↔ controller.config.minimumRateBytes ≤ limit := by
  refine ⟨fun keeps => maximum ▸ keeps.1, fun ordered => ⟨maximum ▸ ordered, ?_⟩⟩
  intro samples sample now before
  have config : before.config = controller.config := observed_config samples
  obtain ⟨last, clamped, same⟩ := observe_clamps before sample now
  rw [clamped, clampRate_rate, same, config, maximum]
  exact ⟨le_clamp ordered last.rate, clamp_le ordered last.rate, clamp_le ordered last.rate⟩

end CongestionController

/-- The configured limit: the rate, or four times the brutal rate. -/
def rateLimit (config : Config) : ℕ :=
  if config.qosEnabled then config.qosRateBytes.toNat else config.brutalRateBytes.toNat * 4

theorem congestionFor_bounds {config : Config} {controller : CongestionController}
    (built : congestionFor config = some controller) :
    controller.config.minimumRateBytes = 8000 ∧ controller.config.maximumRateBytes = rateLimit config := by
  unfold congestionFor at built
  unfold rateLimit
  split at built
  next qos =>
    cases built
    simp [qos]
  next =>
    split at built
    next brutal =>
      cases built
      simp_all
    next => cases built

/-- The controller of a configuration keeps the configured limit exactly when that limit is not below the
compiled-in minimum. -/
theorem rate_limited_iff {config : Config} {controller : CongestionController}
    (built : congestionFor config = some controller) :
    controller.KeepsLimit (rateLimit config) ↔
      if config.qosEnabled then 8000 ≤ config.qosRateBytes else 2000 ≤ config.brutalRateBytes := by
  obtain ⟨minimum, maximum⟩ := congestionFor_bounds built
  have whole : (8000 : ℚ) ≤ rateLimit config ↔ 8000 ≤ rateLimit config := by exact_mod_cast Iff.rfl
  rw [CongestionController.keepsLimit_iff maximum, minimum, whole, rateLimit]
  split
  next =>
    rw [UInt64.le_iff_toNat_le]
    rfl
  next =>
    rw [UInt64.le_iff_toNat_le]
    show 8000 ≤ config.brutalRateBytes.toNat * 4 ↔ 2000 ≤ config.brutalRateBytes.toNat
    omega

def fastLink : Config := { qosEnabled := true, qosRateBytes := 1000000 }

theorem fastLink_limited :
    ∃ controller, congestionFor fastLink = some controller ∧ controller.KeepsLimit (rateLimit fastLink) :=
  ⟨_, rfl, (rate_limited_iff (rfl : congestionFor fastLink = some _)).mpr (by decide)⟩

def slowLink : List Char :=
  ("[node]\nlisten_port = 51820\n[identity]\nkey_file = /etc/norr/key\n" ++
    "[qos]\nenabled = true\nrate_bytes = 4000\n").toList

/-- The parser accepts a rate below the minimum, and the bounds of the clamp are then the wrong way round. -/
theorem slowLink_inverts :
    (parseConfig slowLink).toOption.map (fun config => (config.qosEnabled,
      (congestionFor config).map fun controller =>
        decide (controller.config.minimumRateBytes ≤ controller.config.maximumRateBytes))) =
      some (true, some false) := by
  decide +kernel

end Norr
