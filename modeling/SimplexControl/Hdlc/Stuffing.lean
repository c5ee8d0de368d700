import SimplexControl.Fcs
import SimplexControl.Frame.Basic

/-!
# Frames as bits on the line

Between two flags `01111110` the content of a frame and its check sequence go least significant
bit first, and a zero follows each five ones in a row, so that no flag can show inside a frame.
`Frame.lineForm` is the whole of it as one string of bits.
-/

namespace SimplexControl

namespace Hdlc

/-- The flag as an octet. -/
def flagOctet : UInt8 := 0x7E

/-- The flag as it goes over the line, the same in either bit order. -/
def flag : List Bool := lsbFirst flagOctet

/-- After this many ones in a row a zero is stuffed. -/
def stuffAfter : Nat := 5

theorem stuffAfter_pos : 0 < stuffAfter := Nat.succ_pos 4

/-- Stuffs bits that follow `ones` ones. -/
def stuffFrom : Nat → List Bool → List Bool
  | _, [] => []
  | _, false :: bits => false :: stuffFrom 0 bits
  | ones, true :: bits =>
    if ones + 1 = stuffAfter then true :: false :: stuffFrom 0 bits
    else true :: stuffFrom (ones + 1) bits

/-- Puts a zero after each five ones in a row. -/
def stuff (bits : List Bool) : List Bool := stuffFrom 0 bits

theorem flag_eq : flag = [false, true, true, true, true, true, true, false] := by decide

theorem flag_eq_msbFirst : flag = msbFirst flagOctet := by decide

end Hdlc

namespace Frame

/-- The content of a frame and its check sequence as bits, before stuffing. -/
def checkedBits (f : Frame) : List Bool := contentBits (Fcs.sealed f.octets)

/-- The frame between its flags. -/
def lineForm (f : Frame) : List Bool := Hdlc.flag ++ Hdlc.stuff f.checkedBits ++ Hdlc.flag

end Frame

end SimplexControl
