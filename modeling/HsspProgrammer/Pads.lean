import HsspProgrammer.Pins

/-! The registers of a port and the pad functions over them. The configuration of a pad is
a nibble of CRL or CRH, its latch a bit of ODR. The three wires to the target are pads
of port B, and what is said of the wires elsewhere is what these registers do. -/
namespace HsspProgrammer.Pads
open Pins

structure Gpio where
  CRL : BitVec 32
  CRH : BitVec 32
  ODR : BitVec 32
  deriving DecidableEq, Repr

/- A write to BSRR sets latches with its low half and clears latches with its high half,
a write to BRR clears them. -/
def writeBSRR (port : Gpio) (bits : BitVec 32) : Gpio :=
  {port with ODR := (port.ODR &&& ~~~(bits >>> 16)) ||| (bits &&& 0xFFFF)}

def writeBRR (port : Gpio) (bits : BitVec 32) : Gpio := {port with ODR := port.ODR &&& ~~~(bits &&& 0xFFFF)}

def cfgtab : List (BitVec 32) := [4,2,4,8,8,0,3,7,8,8,8,8,8,8,8,8,0xB,0xF]

abbrev iomode_t := Fin cfgtab.length

def PAL_MODE_INPUT : iomode_t := ⟨2,by decide⟩
def PAL_MODE_INPUT_PULLUP : iomode_t := ⟨3,by decide⟩
def PAL_MODE_INPUT_PULLDOWN : iomode_t := ⟨4,by decide⟩
def PAL_MODE_OUTPUT_PUSHPULL : iomode_t := ⟨6,by decide⟩

structure Words where
  mh : BitVec 32
  ml : BitVec 32
  crh : BitVec 32
  crl : BitVec 32

/- The `for` loop, with the turns that are left. -/
def groupWords (cfg : BitVec 32) : Nat → BitVec 32 → Words → Words
  | 0,_,w => w
  | i + 1,mask,w =>
    groupWords cfg i (mask <<< 1)
      { ml := if mask &&& 0x0080 = 0 then w.ml <<< 4 ||| 0xf else w.ml <<< 4
        crl := if mask &&& 0x0080 = 0 then w.crl <<< 4 else w.crl <<< 4 ||| cfg
        mh := if mask &&& 0x8000 = 0 then w.mh <<< 4 ||| 0xf else w.mh <<< 4
        crh := if mask &&& 0x8000 = 0 then w.crh <<< 4 else w.crh <<< 4 ||| cfg }

def setgroupmode (port : Gpio) (mask : BitVec 32) (mode : iomode_t) : Gpio :=
  let port :=
    if mode = PAL_MODE_INPUT_PULLUP then writeBSRR port mask
    else if mode = PAL_MODE_INPUT_PULLDOWN then writeBRR port mask
    else port
  let w := groupWords (cfgtab.get mode) 8 mask ⟨0,0,0,0⟩
  {port with CRH := (port.CRH &&& w.mh) ||| w.crh, CRL := (port.CRL &&& w.ml) ||| w.crl}

def portBit (pad : Nat) : BitVec 32 := 1#32 <<< pad

def palSetPad (port : Gpio) (pad : Nat) : Gpio := writeBSRR port (portBit pad)
def palClearPad (port : Gpio) (pad : Nat) : Gpio := writeBRR port (portBit pad)
def palSetPadMode (port : Gpio) (pad : Nat) (mode : iomode_t) : Gpio := setgroupmode port (portBit pad) mode

def nibble (w : BitVec 32) (k : Nat) : BitVec 4 := w.extractLsb' (4 * k) 4

def config (port : Gpio) (pad : Fin 16) : BitVec 4 :=
  if pad.val < 8 then nibble port.CRL pad.val else nibble port.CRH (pad.val - 8)

def latch (port : Gpio) (pad : Fin 16) : Bool := port.ODR.getLsbD pad.val

section Loop
/- Each of the four words takes one nibble for each bit of the mask from bit `t` down. -/

def gather (x : Bool → BitVec 32) (t : Nat) : Nat → BitVec 32 → BitVec 32 → BitVec 32
  | 0,_,w => w
  | i + 1,mask,w => gather x t i (mask <<< 1) (w <<< 4 ||| x (mask.getLsbD t))

theorem gathered (x : Bool → BitVec 32) {t i : Nat} (mask w : BitVec 32) (few : i ≤ 8) (high : 7 ≤ t ∧ t < 16)
    (small : ∀ selected j, 4 ≤ j → (x selected).getLsbD j = false) (j : Nat) (inside : j < 32) :
    (gather x t i mask w).getLsbD j =
      if j < 4 * i then (x (mask.getLsbD (t + 1 - i + j / 4))).getLsbD (j % 4) else w.getLsbD (j - 4 * i) := by
  induction i generalizing mask w with
  | zero => simp [gather]
  | succ i ih =>
    rw [gather,ih _ _ (by omega)]
    by_cases old : j < 4 * i
    · have shifted : (mask <<< 1).getLsbD (t + 1 - i + j / 4) = mask.getLsbD (t + 1 - (i + 1) + j / 4) := by
        rw [BitVec.getLsbD_shiftLeft,show t + 1 - i + j / 4 - 1 = t + 1 - (i + 1) + j / 4 by omega]
        simp only [show t + 1 - i + j / 4 < 32 by omega,show ¬ t + 1 - i + j / 4 < 1 by omega]
        rfl
      rw [if_pos old,if_pos (by omega),shifted]
    · rw [if_neg old,BitVec.getLsbD_or,BitVec.getLsbD_shiftLeft]
      by_cases new : j < 4 * (i + 1)
      · rw [if_pos new,show t + 1 - (i + 1) + j / 4 = t by omega,show j % 4 = j - 4 * i by omega]
        simp [show j - 4 * i < 4 by omega]
      · rw [if_neg new,small _ _ (show 4 ≤ j - 4 * i by omega),show j - 4 * i - 4 = j - 4 * (i + 1) by omega]
        simp [show j - 4 * i < 32 by omega,show ¬ j - 4 * i < 4 by omega]

def zeros (selected : Bool) : BitVec 32 := if selected then 0 else 0xf

def chosen (cfg : BitVec 32) (selected : Bool) : BitVec 32 := if selected then cfg else 0

theorem testedBit (mask : BitVec 32) (t : Nat) (inside : t < 32) : mask &&& BitVec.twoPow 32 t = 0 ↔ mask.getLsbD t = false := by
  rw [BitVec.and_twoPow]
  cases mask.getLsbD t with
  | false => simp
  | true =>
    simp only [if_true,Bool.true_eq_false,iff_false]
    intro zero
    have bit := congrArg (BitVec.getLsbD · t) zero
    simp [inside] at bit

theorem zerosTurn {p : Prop} [Decidable p] {selected : Bool} (test : p ↔ selected = false) (w : BitVec 32) :
    (if p then w ||| 0xf else w) = w ||| zeros selected := by
  cases selected <;> simp_all [zeros]

theorem chosenTurn {p : Prop} [Decidable p] {selected : Bool} (test : p ↔ selected = false) (cfg w : BitVec 32) :
    (if p then w else w ||| cfg) = w ||| chosen cfg selected := by
  cases selected <;> simp_all [chosen]

theorem groupGathers (cfg : BitVec 32) (i : Nat) (mask : BitVec 32) (w : Words) : groupWords cfg i mask w =
    ⟨gather zeros 15 i mask w.mh,gather zeros 7 i mask w.ml,gather (chosen cfg) 15 i mask w.crh,
      gather (chosen cfg) 7 i mask w.crl⟩ := by
  induction i generalizing mask w with
  | zero => rfl
  | succ i ih =>
    have low : mask &&& 0x0080 = 0 ↔ mask.getLsbD 7 = false := testedBit mask 7 (by decide)
    have high : mask &&& 0x8000 = 0 ↔ mask.getLsbD 15 = false := testedBit mask 15 (by decide)
    rw [groupWords,ih,zerosTurn low,zerosTurn high,chosenTurn low,chosenTurn high]
    rfl

theorem cfgSmall (mode : iomode_t) (j : Nat) (high : 4 ≤ j) : (cfgtab.get mode).getLsbD j = false := by
  have small : ∀ mode : iomode_t, (cfgtab.get mode).toNat < 2 ^ 4 := by decide
  exact Nat.testBit_lt_two_pow (Nat.lt_of_lt_of_le (small mode) (Nat.pow_le_pow_right (by decide) high))

/- A word of a configuration register after the loop: the mask selects its nibbles from
bit `t - 7` on. -/
theorem nibbleAfter (mode : iomode_t) (old mask : BitVec 32) {t : Nat} (half : t = 7 ∨ t = 15) (k : Nat) (inside : k < 8) :
    nibble ((old &&& gather zeros t 8 mask 0) ||| gather (chosen (cfgtab.get mode)) t 8 mask 0) k =
      if mask.getLsbD (t - 7 + k) then (cfgtab.get mode).setWidth 4 else nibble old k := by
  have highZeros : ∀ selected j, 4 ≤ j → (zeros selected).getLsbD j = false := by
    rintro (_ | _) j high
    · exact Nat.testBit_lt_two_pow (Nat.lt_of_lt_of_le (by decide : 15 < 2 ^ 4) (Nat.pow_le_pow_right (by decide) high))
    · exact BitVec.getLsbD_zero
  have highChosen : ∀ selected j, 4 ≤ j → (chosen (cfgtab.get mode) selected).getLsbD j = false := by
    rintro (_ | _) j high
    · exact BitVec.getLsbD_zero
    · exact cfgSmall mode j high
  apply BitVec.eq_of_getLsbD_eq
  intro b few
  have place : (4 * k + b) / 4 = k ∧ (4 * k + b) % 4 = b := by omega
  simp only [nibble,BitVec.getLsbD_extractLsb',few,decide_true,Bool.true_and,BitVec.getLsbD_or,BitVec.getLsbD_and]
  rw [gathered zeros mask 0 (by omega) (by omega) highZeros _ (by omega),
    gathered (chosen _) mask 0 (by omega) (by omega) highChosen _ (by omega),
    if_pos (by omega),if_pos (by omega),place.1,place.2,show t + 1 - 8 + k = t - 7 + k by omega]
  cases mask.getLsbD (t - 7 + k) with
  | false =>
    have all : ∀ b < 4, (15#32).getLsbD b = true := by decide
    simp [zeros,chosen,all b few,few]
  | true => simp [zeros,chosen,few]

end Loop

section Ports
variable (port : Gpio) (bits mask : BitVec 32) (pad : Fin 16)

theorem lowHalf (i : Nat) (inside : i < 16) : (bits &&& 0xFFFF).getLsbD i = bits.getLsbD i := by
  have all : ∀ i < 16, (0xFFFF#32).getLsbD i = true := by decide
  rw [BitVec.getLsbD_and]
  exact (congrArg (bits.getLsbD i && ·) (all i inside)).trans (Bool.and_true _)

theorem latchBSRR : latch (writeBSRR port bits) pad =
    (bits.getLsbD pad.val || latch port pad && !bits.getLsbD (16 + pad.val)) := by
  have inside := pad.isLt
  simp only [latch,writeBSRR,BitVec.getLsbD_or,BitVec.getLsbD_and,BitVec.getLsbD_not,BitVec.getLsbD_ushiftRight,
    lowHalf bits pad.val inside]
  simp [show pad.val < 32 by omega,Bool.or_comm]

theorem latchBRR : latch (writeBRR port bits) pad = (latch port pad && !bits.getLsbD pad.val) := by
  have inside := pad.isLt
  simp only [latch,writeBRR,BitVec.getLsbD_and,BitVec.getLsbD_not]
  rw [← BitVec.getLsbD_and,lowHalf bits pad.val inside]
  simp [show pad.val < 32 by omega]

theorem groupConfig (mode : iomode_t) : config (setgroupmode port mask mode) pad =
    if mask.getLsbD pad.val then (cfgtab.get mode).setWidth 4 else config port pad := by
  unfold setgroupmode
  generalize first : (if mode = PAL_MODE_INPUT_PULLUP then writeBSRR port mask
    else if mode = PAL_MODE_INPUT_PULLDOWN then writeBRR port mask else port) = before
  have same : before.CRL = port.CRL ∧ before.CRH = port.CRH := by
    rw [← first]
    split
    · exact ⟨rfl,rfl⟩
    · split <;> exact ⟨rfl,rfl⟩
  dsimp only
  rw [groupGathers]
  simp only [config,same.1,same.2]
  split
  · rename_i low
    have whole := nibbleAfter mode port.CRL mask (.inl rfl) pad.val low
    rwa [show 7 - 7 + pad.val = pad.val by omega] at whole
  · rename_i high
    have inside := pad.isLt
    have whole := nibbleAfter mode port.CRH mask (.inr rfl) (pad.val - 8) (by omega)
    rwa [show 15 - 7 + (pad.val - 8) = pad.val by omega] at whole

theorem groupLatch (mode : iomode_t) : latch (setgroupmode port mask mode) pad =
    if mode = PAL_MODE_INPUT_PULLUP then mask.getLsbD pad.val || latch port pad && !mask.getLsbD (16 + pad.val)
    else if mode = PAL_MODE_INPUT_PULLDOWN then latch port pad && !mask.getLsbD pad.val
    else latch port pad := by
  unfold setgroupmode
  change latch (if mode = PAL_MODE_INPUT_PULLUP then writeBSRR port mask
    else if mode = PAL_MODE_INPUT_PULLDOWN then writeBRR port mask else port) pad = _
  split
  · exact latchBSRR port mask pad
  · split
    · exact latchBRR port mask pad
    · rfl

/-- For any group and mode: a pad of the group gets the configuration of the mode and no
other one is changed; the latches are written by the two pull modes only. -/
theorem groupMode (mode : iomode_t) :
    config (setgroupmode port mask mode) pad =
      (if mask.getLsbD pad.val then (cfgtab.get mode).setWidth 4 else config port pad) ∧
    latch (setgroupmode port mask mode) pad =
      if mode = PAL_MODE_INPUT_PULLUP then mask.getLsbD pad.val || latch port pad && !mask.getLsbD (16 + pad.val)
      else if mode = PAL_MODE_INPUT_PULLDOWN then latch port pad && !mask.getLsbD pad.val
      else latch port pad :=
  ⟨groupConfig port mask pad mode,groupLatch port mask pad mode⟩

theorem portBitTest (p : Nat) : (portBit p).getLsbD pad.val = decide (pad.val = p) := by
  have inside := pad.isLt
  rw [portBit,← BitVec.twoPow_eq,BitVec.getLsbD_twoPow]
  by_cases same : pad.val = p
  · simp [same,show p < 32 by omega]
  · simp [same,Ne.symm same]

theorem portBitHigh (p : Fin 16) : (portBit p.val).getLsbD (16 + pad.val) = false := by
  have inside := p.isLt
  rw [portBit,← BitVec.twoPow_eq,BitVec.getLsbD_twoPow]
  simp
  omega

/- What the three pad functions do to any pad. -/
theorem padSet (p : Fin 16) : config (palSetPad port p.val) pad = config port pad ∧
    latch (palSetPad port p.val) pad = if pad = p then true else latch port pad := by
  refine ⟨rfl,?_⟩
  rw [palSetPad,latchBSRR,portBitTest,portBitHigh]
  by_cases same : pad = p <;> simp [same,← Fin.ext_iff]

theorem padCleared (p : Fin 16) : config (palClearPad port p.val) pad = config port pad ∧
    latch (palClearPad port p.val) pad = if pad = p then false else latch port pad := by
  refine ⟨rfl,?_⟩
  rw [palClearPad,latchBRR,portBitTest]
  by_cases same : pad = p <;> simp [same,← Fin.ext_iff]

theorem padMode (p : Fin 16) {mode : iomode_t} (plain : mode ≠ PAL_MODE_INPUT_PULLUP ∧ mode ≠ PAL_MODE_INPUT_PULLDOWN) :
    config (palSetPadMode port p.val mode) pad = (if pad = p then (cfgtab.get mode).setWidth 4 else config port pad) ∧
    latch (palSetPadMode port p.val mode) pad = latch port pad := by
  constructor
  · rw [palSetPadMode,groupConfig,portBitTest]
    simp [Fin.ext_iff]
  · rw [palSetPadMode,groupLatch,if_neg plain.1,if_neg plain.2]

end Ports

def GPIOB_XRES_PIN : Fin 16 := 7
def GPIOB_SDATA_PIN : Fin 16 := 8
def GPIOB_SCLK_PIN : Fin 16 := 9

/- `VAL_GPIOBCRL`, `VAL_GPIOBCRH` and `VAL_GPIOBODR`. -/
def boardPort : Gpio := ⟨0x38888888,0x88888834,0xFFFFFD7F⟩

inductive Helper where
  | sdataHiZ
  | sdataPP
  | sdataLow
  | sdataHigh
  | sclkLow
  | sclkHigh
  | xresAssert
  | xresDeassert
  deriving DecidableEq, Repr

/- What each pin helper does to the registers, -/
def Helper.registers (port : Gpio) : Helper → Gpio
  | .sdataHiZ => palSetPadMode port GPIOB_SDATA_PIN.val PAL_MODE_INPUT
  | .sdataPP => palSetPadMode port GPIOB_SDATA_PIN.val PAL_MODE_OUTPUT_PUSHPULL
  | .sdataLow => palClearPad port GPIOB_SDATA_PIN.val
  | .sdataHigh => palSetPad port GPIOB_SDATA_PIN.val
  | .sclkLow => palClearPad port GPIOB_SCLK_PIN.val
  | .sclkHigh => palSetPad port GPIOB_SCLK_PIN.val
  | .xresAssert => palSetPad port GPIOB_XRES_PIN.val
  | .xresDeassert => palClearPad port GPIOB_XRES_PIN.val

/- and to the three wires. -/
def Helper.change (p : Port) : Helper → Port
  | .sdataHiZ => {p with sdataMode := .input}
  | .sdataPP => {p with sdataMode := .pushPull}
  | .sdataLow => {p with sdata := false}
  | .sdataHigh => {p with sdata := true}
  | .sclkLow => {p with sclk := false}
  | .sclkHigh => {p with sclk := true}
  | .xresAssert => {p with xres := true}
  | .xresDeassert => {p with xres := false}

def modeConfig : Mode → BitVec 4
  | .input => 4
  | .pushPull => 3

/- The registers are those of the three wires, and of a board where nothing else has been
touched. -/
structure Shows (port : Gpio) (p : Port) : Prop where
  sdataMode : config port GPIOB_SDATA_PIN = modeConfig p.sdataMode
  outputs : config port GPIOB_SCLK_PIN = modeConfig .pushPull ∧ config port GPIOB_XRES_PIN = modeConfig .pushPull
  sdata : latch port GPIOB_SDATA_PIN = p.sdata
  sclk : latch port GPIOB_SCLK_PIN = p.sclk
  xres : latch port GPIOB_XRES_PIN = p.xres
  others : ∀ pad : Fin 16, pad ∉ [GPIOB_SDATA_PIN,GPIOB_SCLK_PIN,GPIOB_XRES_PIN] →
    config port pad = config boardPort pad ∧ latch port pad = latch boardPort pad

theorem boardShows {δ : Type} (d : δ) : Shows boardPort (boardInit d).port where
  sdataMode := show config boardPort GPIOB_SDATA_PIN = modeConfig .input by decide
  outputs := show config boardPort GPIOB_SCLK_PIN = 3 ∧ config boardPort GPIOB_XRES_PIN = 3 by decide
  sdata := show latch boardPort GPIOB_SDATA_PIN = true by decide
  sclk := show latch boardPort GPIOB_SCLK_PIN = false by decide
  xres := show latch boardPort GPIOB_XRES_PIN = false by decide
  others := fun _ _ => ⟨rfl,rfl⟩

theorem latchWritten {port written : Gpio} {p : Port} (shows' : Shows port p) (pin : Fin 16) (v : Bool)
    (used : pin ∈ [GPIOB_SDATA_PIN,GPIOB_SCLK_PIN,GPIOB_XRES_PIN]) (changed : ∀ pad, config written pad = config port pad ∧
      latch written pad = if pad = pin then v else latch port pad) :
    Shows written {p with
      sdata := if GPIOB_SDATA_PIN = pin then v else p.sdata
      sclk := if GPIOB_SCLK_PIN = pin then v else p.sclk
      xres := if GPIOB_XRES_PIN = pin then v else p.xres} where
  sdataMode := (changed _).1.trans shows'.sdataMode
  outputs := ⟨(changed _).1.trans shows'.outputs.1,(changed _).1.trans shows'.outputs.2⟩
  sdata := by rw [(changed _).2,shows'.sdata]
  sclk := by rw [(changed _).2,shows'.sclk]
  xres := by rw [(changed _).2,shows'.xres]
  others := by
    intro pad other
    have apart : pad ≠ pin := fun same => other (same ▸ used)
    rw [(changed pad).1,(changed pad).2,if_neg apart]
    exact shows'.others pad other

theorem modeWritten {port : Gpio} {p : Port} (shows' : Shows port p) {mode : iomode_t} {wires : Mode}
    (plain : mode ≠ PAL_MODE_INPUT_PULLUP ∧ mode ≠ PAL_MODE_INPUT_PULLDOWN)
    (same : (cfgtab.get mode).setWidth 4 = modeConfig wires) :
    Shows (palSetPadMode port GPIOB_SDATA_PIN.val mode) {p with sdataMode := wires} where
  sdataMode := by rw [(padMode port _ GPIOB_SDATA_PIN plain).1,if_pos rfl,same]
  outputs := by
    rw [(padMode port _ GPIOB_SDATA_PIN plain).1,(padMode port _ GPIOB_SDATA_PIN plain).1,if_neg (by decide),
      if_neg (by decide)]
    exact shows'.outputs
  sdata := (padMode port _ GPIOB_SDATA_PIN plain).2.trans shows'.sdata
  sclk := (padMode port _ GPIOB_SDATA_PIN plain).2.trans shows'.sclk
  xres := (padMode port _ GPIOB_SDATA_PIN plain).2.trans shows'.xres
  others := by
    intro pad other
    have apart : pad ≠ GPIOB_SDATA_PIN := fun same => other (same ▸ .head _)
    rw [(padMode port _ GPIOB_SDATA_PIN plain).1,(padMode port _ GPIOB_SDATA_PIN plain).2,if_neg apart]
    exact shows'.others pad other

/-- The registers after a pin helper are those of the wires after it. -/
theorem helperShows {port : Gpio} {p : Port} (shows' : Shows port p) (helper : Helper) :
    Shows (helper.registers port) (helper.change p) := by
  cases helper with
  | sdataHiZ => exact modeWritten shows' (by decide) (by decide)
  | sdataPP => exact modeWritten shows' (by decide) (by decide)
  | sdataLow => exact latchWritten shows' GPIOB_SDATA_PIN false (by decide) fun pad => padCleared port pad _
  | sdataHigh => exact latchWritten shows' GPIOB_SDATA_PIN true (by decide) fun pad => padSet port pad _
  | sclkLow => exact latchWritten shows' GPIOB_SCLK_PIN false (by decide) fun pad => padCleared port pad _
  | sclkHigh => exact latchWritten shows' GPIOB_SCLK_PIN true (by decide) fun pad => padSet port pad _
  | xresAssert => exact latchWritten shows' GPIOB_XRES_PIN true (by decide) fun pad => padSet port pad _
  | xresDeassert => exact latchWritten shows' GPIOB_XRES_PIN false (by decide) fun pad => padCleared port pad _

end HsspProgrammer.Pads
