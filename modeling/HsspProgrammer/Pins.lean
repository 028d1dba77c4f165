import HsspProgrammer.Triples

/-! The three wires to the target and the pin helpers. What is on the other end sees
SDATA at each falling edge of SCLK and gives the level that is read while the pin is
not driven; `log` is no data of the program but records what it does with the pins. -/
namespace HsspProgrammer.Pins

inductive Mode where
  | input
  | pushPull
  deriving DecidableEq, Repr

/- Port B as far as it is used: the output latches hold their values in input mode. -/
structure Port where
  sdataMode : Mode
  sdata : Bool
  sclk : Bool
  xres : Bool
  deriving DecidableEq, Repr

def Port.driven (p : Port) : Option Bool := if p.sdataMode = .pushPull then some p.sdata else none

inductive Event where
  | written (before after : Port)
  | read (port : Port)
  deriving DecidableEq, Repr

/- The other end of the wires. -/
structure Wire (δ : Type) where
  fall : Option Bool → δ → δ
  sense : δ → Bool × δ

structure Bus (δ : Type) where
  port : Port
  device : δ
  log : List Event

variable {δ : Type}

abbrev Driver (δ : Type) := StateM (Bus δ)

/- One access to an output register or to a mode. -/
def write (W : Wire δ) (change : Port → Port) : Driver δ Unit := fun s =>
  let after := change s.port
  ((),⟨after,if s.port.sclk = true ∧ after.sclk = false then W.fall after.driven s.device else s.device,
    s.log ++ [.written s.port after]⟩)

def sdataHiZ (W : Wire δ) : Driver δ Unit := write W (fun p => {p with sdataMode := .input})
def sdataPP (W : Wire δ) : Driver δ Unit := write W (fun p => {p with sdataMode := .pushPull})
def sdataLow (W : Wire δ) : Driver δ Unit := write W (fun p => {p with sdata := false})
def sdataHigh (W : Wire δ) : Driver δ Unit := write W (fun p => {p with sdata := true})
def sclkLow (W : Wire δ) : Driver δ Unit := write W (fun p => {p with sclk := false})
def sclkHigh (W : Wire δ) : Driver δ Unit := write W (fun p => {p with sclk := true})
def xresAssert (W : Wire δ) : Driver δ Unit := write W (fun p => {p with xres := true})
def xresDeassert (W : Wire δ) : Driver δ Unit := write W (fun p => {p with xres := false})

/- `palReadPad` of SDATA. -/
def readSdata (W : Wire δ) : Driver δ Bool := fun s =>
  let sensed := W.sense s.device
  (s.port.driven.getD sensed.1,{s with device := sensed.2, log := s.log ++ [.read s.port]})

/- `VAL_GPIOBCRL`, `VAL_GPIOBCRH` and `VAL_GPIOBODR`: PB8 is a digital input with its
latch set, PB9 and PB7 are outputs and low. -/
def boardInit (d : δ) : Bus δ := ⟨⟨.input,true,false,false⟩,d,[]⟩

end HsspProgrammer.Pins
