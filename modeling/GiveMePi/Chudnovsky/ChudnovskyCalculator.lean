import GiveMePi.Bigint.GMPInteger
import GiveMePi.Binary.BinarySplitter
import GiveMePi.Chudnovsky.PrecisionPolicy

/-! # The digits of pi from the series

The root of the splitting gives pi in fixed point: an integer square root, a floor division and a
rounding of the guard digits. -/

namespace GiveMePi.Chudnovsky

open Binary (BinaryNode)

structure PiCalculationRequest where
  digits : UInt64
  guardDigits : UInt32
deriving DecidableEq, Repr

structure PiCalculationResult where
  precision : PrecisionPlan
  decimal : String
deriving DecidableEq, Repr

/-- The value of `finalizeFixedPoint` with all working digits, before the guard digits go. -/
def scaledPiWithGuard (node : BinaryNode) (precision : PrecisionPlan) : Except Error ℤ := do
  throwIf (precision.workingDigits > uint64Max / 2)
    (.overflowError "Fixed-point square-root scale exponent overflow")
  let squareRootScaleExponent := precision.workingDigits * 2
  let squareRootScale ← GMPInteger.setPowerOfTen squareRootScaleExponent
  let squareRootScale ← GMPInteger.floorSquareRoot (squareRootScale * 10005)
  GMPInteger.floorDivide (squareRootScale * 426880 * node.q) node.t

def finalizeFixedPoint (node : BinaryNode) (precision : PrecisionPlan) : Except Error ℤ := do
  let scaledPi ← scaledPiWithGuard node precision
  let roundingIncrement ← GMPInteger.setPowerOfTen (precision.guardDigits - 1).toUInt64
  let guardScale ← GMPInteger.setPowerOfTen precision.guardDigits.toUInt64
  GMPInteger.floorDivide (scaledPi + roundingIncrement * 5) guardScale

def formatDecimal (scaledPi : ℤ) (precision : PrecisionPlan) : Except Error String := do
  let digits := (GMPInteger.toString scaledPi).toList
  throwIf (precision.requestedDigits > uint64Max - 1)
    (.overflowError "Requested decimal output does not fit size_t")
  let expectedDigits := precision.requestedDigits + 1
  throwIf (digits.length ≠ expectedDigits.toNat ∨ digits.head? ≠ some '3')
    (.runtimeError "Final pi fixed-point value has an unexpected width")
  pure (String.ofList (digits.insertIdx 1 '.'))

def makeResult (precision : PrecisionPlan) (node : BinaryNode) :
    Except Error PiCalculationResult := do
  let scaledPi ← finalizeFixedPoint node precision
  let decimal ← formatDecimal scaledPi precision
  pure ⟨precision, decimal⟩

def calculateSequential (request : PiCalculationRequest) : Except Error PiCalculationResult := do
  let precision ← PrecisionPolicy.create request.digits request.guardDigits
  let node ← Binary.splitSequential 0 precision.termCount
  makeResult precision node

end GiveMePi.Chudnovsky
