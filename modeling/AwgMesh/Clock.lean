import Mathlib.Data.Int.Basic

/-! # Time -/

namespace AwgMesh

abbrev Time := Int

abbrev Duration := Int

namespace Time

def isZero (t : Time) : Bool := t = 0

def zeroToUnix : Int := 62135596800

def unix (t : Time) : Int := t / 1000000000 - zeroToUnix

end Time

def hour : Duration := 3600 * 1000000000

abbrev Bytes := List UInt8

end AwgMesh
