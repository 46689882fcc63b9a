set_option autoImplicit false

/-!
# Powers of two and of ten

The powers that scale binary and decimal numbers, and the integers that fit a machine word.
-/

namespace PipelineLineage

def powTwo (n : Nat) : Nat := Nat.pow 2 n

def powTen (n : Nat) : Nat := Nat.pow 10 n

/-- Whether an integer fits a signed word of the given width. -/
def fitsSigned (width : Nat) (n : Int) : Bool :=
  -(powTwo (width - 1) : Int) ≤ n && n < powTwo (width - 1)

/-- Whether an integer fits an unsigned word of the given width. -/
def fitsUnsigned (width : Nat) (n : Int) : Bool :=
  0 ≤ n && n < powTwo width

end PipelineLineage
