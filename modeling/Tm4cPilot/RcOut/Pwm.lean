import Tm4cPilot.Lib.Run

/-!
# The PWM outputs

`dev_rc_out.c`: the period and the pulse of each output, and the registers of the generators.
`SystemCoreClock` is 120 MHz and the PWM clock a 64th of it.
-/

namespace Tm4cPilot.RcOut

open Function List UInt32 Nat

/-- `PWM_PERIOD_DEFAULT`, in microseconds. -/
def pwmPeriodDefault : UInt32 := 2500

/-- `PWM_PULSE_DEFAULT`, in microseconds. -/
def pwmPulseDefault : UInt32 := 1000

/-- The fields of `pwm_out_t` that change. -/
structure PwmOut where
  period : UInt32
  pulse : UInt32
  deriving DecidableEq, Repr

/-- The field `pwm_gen` of `pwm_out_array`. -/
def pwmGen : Fin 4 → Fin 3 := ![0, 1, 1, 2]

/-- `pwm_out_array`, the load and compare registers, and the last widths. -/
structure Pwm where
  out : Fin 4 → PwmOut
  load : Fin 3 → UInt16
  cmp : Fin 4 → UInt16
  width : Fin 4 → UInt32

/-- A time in clocks. -/
def pwmCnt (period : UInt32) : UInt32 := UInt32.ofNat (period.toNat * 120 / 64)

namespace Pwm

variable (s : Pwm)

/-- `PWMGenPeriodSet`.  The counters count down. -/
def genPeriodSet (g : Fin 3) (period : UInt32) : Pwm :=
  { s with load := update s.load g (period - 1).toUInt16 }

/-- `PWMGenPeriodGet`. -/
def genPeriodGet (g : Fin 3) : UInt32 := (s.load g).toUInt32 + 1

/-- `PWMPulseWidthSet`. -/
def pulseWidthSet (i : Fin 4) (width : UInt32) : Pwm :=
  { s with
    cmp := update s.cmp i ((s.load (pwmGen i)).toUInt32 - width).toUInt16
    width := update s.width i width }

def setPeriod (i : Fin 4) (period : UInt32) : Option Pwm :=
  if 0xffff < pwmCnt period then none
  else some ({ s with out := update s.out i { s.out i with period } }.genPeriodSet
    (pwmGen i) (pwmCnt period))

def setPulse (i : Fin 4) (pulse : UInt32) : Option Pwm :=
  if (s.out i).period ≤ pulse then none
  else
    let ccpCnt := pulse * s.genPeriodGet (pwmGen i) / (s.out i).period
    let s := s.pulseWidthSet i (if 0 < ccpCnt then ccpCnt else 1)
    some { s with out := update s.out i { s.out i with pulse } }

/-- The body of the loop of `dev_rc_out_set_period`. -/
def setPeriodOf (period : UInt16) (s : Pwm) (i : Fin 4) : Pwm :=
  match s.setPeriod i period.toUInt32 with
  | none => s
  | some s => (s.setPulse i (s.out i).pulse).getD s

def devSetPeriod (period : UInt16) : Pwm := (finRange 4).foldl (setPeriodOf period) s

/-- The body of the loop of `dev_rc_out_write`. -/
def writeOf (pulses : List UInt16) (s : Pwm) (i : Fin 4) : Pwm :=
  match pulses[i.val]? with
  | none => s
  | some pulse => (s.setPulse i pulse.toUInt32).getD s

def devWrite (pulses : List UInt16) : Pwm := (finRange 4).foldl (writeOf pulses) s

/-- The body of the loop of `dev_rc_out_init`. -/
def initOf (s : Pwm) (i : Fin 4) : Pwm :=
  let s := { s with out := update s.out i ⟨pwmPeriodDefault, pwmPulseDefault⟩ }
  let s := (s.setPeriod i (s.out i).period).getD s
  (s.setPulse i (s.out i).pulse).getD s

/-- The registers at reset. -/
def reset : Pwm := ⟨fun _ => ⟨0, 0⟩, fun _ => 0, fun _ => 0, fun _ => 0⟩

def devInit : Pwm := (finRange 4).foldl initOf reset

/-- The calls of the driver. -/
inductive Call where
  | setPeriod (period : UInt16)
  | write (pulses : List UInt16)
  deriving DecidableEq, Repr

def step : Call → Pwm
  | .setPeriod period => s.devSetPeriod period
  | .write pulses => s.devWrite pulses

/-- Pulse, width and compare value are less than the period. -/
def WellFormed : Prop :=
  ∀ i, (s.out i).pulse < (s.out i).period ∧
    (s.width i).toNat < (s.load (pwmGen i)).toNat + 1 ∧
    (s.cmp i).toNat < (s.load (pwmGen i)).toNat + 1
deriving Decidable

/-- The counter holds the period, and this is longer than each pulse. -/
def Fits : Call → Prop
  | .setPeriod period => 0xffff < pwmCnt period.toUInt32 ∨
      1 < period ∧ ∀ i, (s.out i).pulse < period.toUInt32
  | .write _ => True

instance (c : Call) : Decidable (s.Fits c) := by
  cases c <;> unfold Fits <;> infer_instance

/-! ## Setting the period -/

/-- The load value of a period. -/
def loadOf (period : UInt16) : UInt16 := (pwmCnt period.toUInt32 - 1).toUInt16

/-- The width of a pulse in clocks. -/
def widthOf (period : UInt16) (pulse : UInt32) : UInt32 :=
  let ccpCnt := pulse * ((loadOf period).toUInt32 + 1) / period.toUInt32
  if 0 < ccpCnt then ccpCnt else 1

/-- The compare value of a pulse. -/
def cmpOf (period : UInt16) (pulse : UInt32) : UInt16 :=
  ((loadOf period).toUInt32 - widthOf period pulse).toUInt16

variable {s} {period : UInt16}

theorem setPulse_eq (period : UInt16) {i : Fin 4} (same : (s.out i).period = period.toUInt32)
    (load : s.load (pwmGen i) = loadOf period) {pulse : UInt32} (short : pulse < period.toUInt32) :
    s.setPulse i pulse = some { s with
      out := update s.out i ⟨period.toUInt32, pulse⟩
      cmp := update s.cmp i (cmpOf period pulse)
      width := update s.width i (widthOf period pulse) } := by
  rw [setPulse, same, if_neg (UInt32.not_le.mpr short)]
  simp only [pulseWidthSet, genPeriodGet, load, widthOf, cmpOf, same]

theorem setPeriodOf_eq (small : ¬ 0xffff < pwmCnt period.toUInt32) (s : Pwm) (i : Fin 4) :
    setPeriodOf period s i =
      { out := update s.out i ⟨period.toUInt32, (s.out i).pulse⟩
        load := update s.load (pwmGen i) (loadOf period)
        cmp := if (s.out i).pulse < period.toUInt32 then
          update s.cmp i (cmpOf period (s.out i).pulse) else s.cmp
        width := if (s.out i).pulse < period.toUInt32 then
          update s.width i (widthOf period (s.out i).pulse) else s.width } := by
  rw [setPeriodOf, setPeriod, if_neg small]
  dsimp only [genPeriodSet]
  by_cases short : (s.out i).pulse < period.toUInt32
  · rw [setPulse_eq period (by simp) (by simp [loadOf]) (by simpa using short)]
    simp [short, loadOf]
  · rw [setPulse, if_pos (by simpa [not_lt] using short)]
    simp [short, loadOf]

section Small

variable (small : ¬ 0xffff < pwmCnt period.toUInt32) (s : Pwm) (i j : Fin 4)

include small

theorem out_setPeriodOf : (setPeriodOf period s i).out j =
    if j = i then ⟨period.toUInt32, (s.out j).pulse⟩ else s.out j := by
  rw [setPeriodOf_eq small]
  by_cases here : j = i <;> simp [here]

theorem pulse_setPeriodOf : ((setPeriodOf period s i).out j).pulse = (s.out j).pulse := by
  rw [out_setPeriodOf small]
  split_ifs <;> rfl

theorem load_setPeriodOf (g : Fin 3) : (setPeriodOf period s i).load g =
    if g = pwmGen i then loadOf period else s.load g := by
  rw [setPeriodOf_eq small]
  by_cases here : g = pwmGen i <;> simp [here]

theorem cmp_setPeriodOf : (setPeriodOf period s i).cmp j =
    if j = i ∧ (s.out j).pulse < period.toUInt32 then cmpOf period (s.out j).pulse
    else s.cmp j := by
  rw [setPeriodOf_eq small]
  split_ifs with short here <;> grind

theorem width_setPeriodOf : (setPeriodOf period s i).width j =
    if j = i ∧ (s.out j).pulse < period.toUInt32 then widthOf period (s.out j).pulse
    else s.width j := by
  rw [setPeriodOf_eq small]
  split_ifs with short here <;> grind

theorem foldl_setPeriodOf (is : List (Fin 4)) :
    (is.foldl (setPeriodOf period) s).out j =
        (if j ∈ is then ⟨period.toUInt32, (s.out j).pulse⟩ else s.out j) ∧
      (∀ g, (is.foldl (setPeriodOf period) s).load g =
        if g ∈ is.map pwmGen then loadOf period else s.load g) ∧
      (is.foldl (setPeriodOf period) s).cmp j =
        (if j ∈ is ∧ (s.out j).pulse < period.toUInt32 then cmpOf period (s.out j).pulse
          else s.cmp j) ∧
      (is.foldl (setPeriodOf period) s).width j =
        (if j ∈ is ∧ (s.out j).pulse < period.toUInt32 then widthOf period (s.out j).pulse
          else s.width j) := by
  induction is generalizing s with
  | nil => simp
  | cons i is ih =>
    obtain ⟨out, load, cmp, width⟩ := ih (setPeriodOf period s i)
    rw [pulse_setPeriodOf small] at out cmp width
    rw [foldl_cons]
    refine ⟨?_, fun g => ?_, ?_, ?_⟩
    · rw [out, out_setPeriodOf small]
      grind
    · rw [load, load_setPeriodOf small]
      grind
    · rw [cmp, cmp_setPeriodOf small]
      grind
    · rw [width, width_setPeriodOf small]
      grind

end Small

theorem devSetPeriod_spec (small : ¬ 0xffff < pwmCnt period.toUInt32) (s : Pwm) (i : Fin 4) :
    (s.devSetPeriod period).out i = ⟨period.toUInt32, (s.out i).pulse⟩ ∧
      (s.devSetPeriod period).load (pwmGen i) = loadOf period ∧
      ((s.out i).pulse < period.toUInt32 →
        (s.devSetPeriod period).cmp i = cmpOf period (s.out i).pulse ∧
          (s.devSetPeriod period).width i = widthOf period (s.out i).pulse) := by
  obtain ⟨out, load, cmp, width⟩ := foldl_setPeriodOf small s i (finRange 4)
  refine ⟨?_, ?_, fun short => ⟨?_, ?_⟩⟩
  · exact out.trans (if_pos (mem_finRange i))
  · exact (load _).trans (if_pos (mem_map_of_mem (mem_finRange i)))
  · exact cmp.trans (if_pos ⟨mem_finRange i, short⟩)
  · exact width.trans (if_pos ⟨mem_finRange i, short⟩)

theorem devSetPeriod_of_large (large : 0xffff < pwmCnt period.toUInt32) (s : Pwm) :
    s.devSetPeriod period = s := by
  rw [devSetPeriod]
  induction finRange 4 with
  | nil => rfl
  | cons i is ih =>
    rw [foldl_cons, setPeriodOf, setPeriod, if_pos large]
    exact ih

theorem toNat_pwmCnt (period : UInt16) :
    (pwmCnt period.toUInt32).toNat = period.toNat * 120 / 64 := by
  have small := period.toNat_lt
  rw [pwmCnt, toNat_ofNat', UInt16.toNat_toUInt32]
  omega

section

variable (small : ¬ 0xffff < pwmCnt period.toUInt32)
include small

theorem toNat_loadOf (positive : 0 < period.toNat) :
    (loadOf period).toNat + 1 = period.toNat * 120 / 64 := by
  have count := toNat_pwmCnt period
  rw [UInt32.lt_iff_toNat_lt] at small
  have le : 1 ≤ pwmCnt period.toUInt32 := by
    rw [le_iff_toNat_le, count]
    change 1 ≤ _
    omega
  rw [loadOf, UInt32.toNat_toUInt16, UInt32.toNat_sub_of_le _ _ le, count]
  change ¬ 65535 < _ at small
  change (_ - 1) % _ + 1 = _
  omega

theorem toNat_widthOf {pulse : UInt32} (short : pulse < period.toUInt32) :
    (widthOf period pulse).toNat =
      max 1 (pulse.toNat * (period.toNat * 120 / 64) / period.toNat) := by
  have lt : pulse.toNat < period.toNat := short
  have load := toNat_loadOf small (by omega)
  have loadLt := (loadOf period).toNat_lt
  have fits : pulse.toNat * ((loadOf period).toNat + 1) < 2 ^ 32 := by
    have le : pulse.toNat * ((loadOf period).toNat + 1) ≤ 65534 * 65536 :=
      Nat.mul_le_mul (by omega) (by omega)
    omega
  have ccp : (pulse * ((loadOf period).toUInt32 + 1) / period.toUInt32).toNat =
      pulse.toNat * ((loadOf period).toNat + 1) / period.toNat := by
    rw [UInt32.toNat_div, UInt32.toNat_mul, UInt32.toNat_add, UInt16.toNat_toUInt32,
      UInt16.toNat_toUInt32]
    change _ * ((_ + 1) % _) % _ / _ = _
    rw [mod_eq_of_lt (a := _ + 1) (by omega), mod_eq_of_lt fits]
  rw [widthOf, ← load, ← ccp]
  split_ifs with positive
  · exact (max_eq_right positive).symm
  · rw [lt_iff_toNat_lt] at positive
    change ¬ 0 < _ at positive
    exact (max_eq_left (by omega)).symm

theorem counts_lt {pulse : UInt32} (short : pulse < period.toUInt32) (long : 1 < period.toNat) :
    (widthOf period pulse).toNat < (loadOf period).toNat + 1 ∧
      (cmpOf period pulse).toNat < (loadOf period).toNat + 1 := by
  have lt : pulse.toNat < period.toNat := short
  have load := toNat_loadOf small (by omega)
  have width : (widthOf period pulse).toNat < (loadOf period).toNat + 1 := by
    rw [toNat_widthOf small short, load, max_lt_iff]
    refine ⟨by omega, Nat.div_lt_of_lt_mul ?_⟩
    exact Nat.mul_lt_mul_of_pos_right lt (by omega)
  refine ⟨width, ?_⟩
  have le : widthOf period pulse ≤ (loadOf period).toUInt32 := by
    rw [le_iff_toNat_le, UInt16.toNat_toUInt32]
    omega
  rw [cmpOf, UInt32.toNat_toUInt16, UInt32.toNat_sub_of_le _ _ le, UInt16.toNat_toUInt32]
  exact ((mod_le ..).trans (sub_le ..)).trans_lt (lt_succ_self _)

end

/-! ## Reachable outputs -/

/-- The outputs are well formed, with one period that fits. -/
structure Sound (s : Pwm) (period : UInt16) : Prop where
  long : 1 < period.toNat
  small : ¬ 0xffff < pwmCnt period.toUInt32
  period_eq : ∀ i, (s.out i).period = period.toUInt32
  load_eq : ∀ i, s.load (pwmGen i) = loadOf period
  wellFormed : s.WellFormed

theorem Sound.writeOf (sound : s.Sound period) (pulses : List UInt16) (i : Fin 4) :
    (writeOf pulses s i).Sound period := by
  rw [Pwm.writeOf]
  cases pulses[i.val]? with
  | none => exact sound
  | some pulse =>
    dsimp only
    by_cases long : (s.out i).period ≤ pulse.toUInt32
    · rw [setPulse, if_pos long]
      exact sound
    · have short : pulse.toUInt32 < period.toUInt32 := by
        rwa [sound.period_eq, UInt32.not_le] at long
      rw [setPulse_eq period (sound.period_eq i) (sound.load_eq i) short, Option.getD_some]
      refine ⟨sound.long, sound.small, fun j => ?_, sound.load_eq, fun j => ?_⟩
      · dsimp only
        by_cases here : j = i
        · rw [here, update_self]
        · rw [update_of_ne here, sound.period_eq]
      · by_cases here : j = i
        · subst here
          simp only [update_self, sound.load_eq]
          exact ⟨short, counts_lt sound.small short sound.long⟩
        · simp only [update_of_ne here]
          exact sound.wellFormed j

theorem Sound.devWrite (sound : s.Sound period) (pulses : List UInt16) :
    (s.devWrite pulses).Sound period := by
  rw [Pwm.devWrite]
  induction finRange 4 generalizing s with
  | nil => exact sound
  | cons i is ih => exact ih (sound.writeOf pulses i)

theorem sound_devSetPeriod (small : ¬ 0xffff < pwmCnt period.toUInt32) (long : 1 < period)
    (short : ∀ i, (s.out i).pulse < period.toUInt32) : (s.devSetPeriod period).Sound period := by
  refine ⟨long, small, fun i => ?_, fun i => (devSetPeriod_spec small s i).2.1, fun i => ?_⟩
  · rw [(devSetPeriod_spec small s i).1]
  · obtain ⟨out, load, regs⟩ := devSetPeriod_spec small s i
    rw [out, load, (regs (short i)).1, (regs (short i)).2]
    exact ⟨short i, counts_lt small (short i) long⟩

theorem not_wellFormed_devSetPeriod (small : ¬ 0xffff < pwmCnt period.toUInt32)
    (bad : ¬ (1 < period ∧ ∀ i, (s.out i).pulse < period.toUInt32)) :
    ¬ (s.devSetPeriod period).WellFormed := by
  intro wellFormed
  have short : ∀ i, (s.out i).pulse < period.toUInt32 := by
    intro i
    have formed := (wellFormed i).1
    rwa [(devSetPeriod_spec small s i).1] at formed
  have brief : ¬ 1 < period := fun long => bad ⟨long, short⟩
  have lt : (s.out 0).pulse.toNat < period.toNat := short 0
  have one : ¬ 1 < period.toNat := brief
  obtain ⟨-, load, regs⟩ := devSetPeriod_spec small s 0
  have width := (wellFormed 0).2.1
  rw [load, (regs (short 0)).2, toNat_widthOf small (short 0), toNat_loadOf small (by omega)] at width
  omega

theorem Sound.step_iff (sound : s.Sound period) (c : Call) : (s.step c).WellFormed ↔ s.Fits c := by
  cases c with
  | write pulses => exact iff_of_true (sound.devWrite pulses).wellFormed trivial
  | setPeriod new =>
    rw [Fits, step]
    by_cases large : 0xffff < pwmCnt new.toUInt32
    · rw [devSetPeriod_of_large large]
      exact iff_of_true sound.wellFormed (.inl large)
    · rw [or_iff_right large]
      refine ⟨fun wellFormed => ?_, fun fits => ?_⟩
      · by_contra bad
        exact not_wellFormed_devSetPeriod large bad wellFormed
      · exact (sound_devSetPeriod large fits.1 fits.2).wellFormed

theorem Sound.step (sound : s.Sound period) {c : Call} (fits : s.Fits c) :
    ∃ period, (s.step c).Sound period := by
  cases c with
  | write pulses => exact ⟨period, sound.devWrite pulses⟩
  | setPeriod new =>
    rw [Pwm.step]
    by_cases large : 0xffff < pwmCnt new.toUInt32
    · rw [devSetPeriod_of_large large]
      exact ⟨period, sound⟩
    · obtain ⟨long, short⟩ := fits.resolve_left large
      exact ⟨new, sound_devSetPeriod large long short⟩

theorem sound_devInit : devInit.Sound 2500 :=
  ⟨by decide, by decide +kernel, by decide +kernel, by decide +kernel, by decide +kernel⟩

/-- The outputs are well formed in all states of a run if and only if each period fits. -/
theorem outputs_wellFormed_iff (calls : List Call) :
    (devInit.WellFormed ∧ Run.Along step (fun s c => (s.step c).WellFormed) devInit calls) ↔
      Run.Along step Fits devInit calls := by
  rw [and_iff_right sound_devInit.wellFormed]
  refine Run.along_congr (I := fun s => ∃ period, s.Sound period) ?_ ?_ ⟨2500, sound_devInit⟩
  · rintro s c ⟨period, sound⟩
    exact sound.step_iff c
  · rintro s c ⟨period, sound⟩ fits
    exact sound.step fits

/-- A period of 500 µs while the pulses are 1000 µs. -/
theorem short_period_keeps_pulse :
    ((devInit.step (.setPeriod 500)).out 0).pulse = 1000 ∧
      ((devInit.step (.setPeriod 500)).out 0).period = 500 ∧
      ¬ (devInit.step (.setPeriod 500)).WellFormed := by
  decide +kernel

end Pwm

end Tm4cPilot.RcOut
