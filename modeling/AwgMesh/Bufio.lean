import AwgMesh.ByteText
import AwgMesh.Lib.Lines

/-! # Reading lines -/

namespace AwgMesh

open ByteText Lib

structure Reader where
  data : Bytes
  err : Option String := none

inductive ScanError where
  | tooLong
  | read (err : String)

def maxScanTokenSize : Nat := 65536

def dropCR (line : Bytes) : Bytes := if line.getLast? = some cr then line.dropLast else line

def scanPieces : List Bytes → List Bytes × Bool
  | [] => ([], false)
  | piece :: rest =>
    if piece = [] ∧ rest = [] then ([], false)
    else if maxScanTokenSize ≤ piece.length then ([], true)
    else (dropCR piece :: (scanPieces rest).1, (scanPieces rest).2)

def scan (r : Reader) : List Bytes × Option ScanError :=
  let (lines, long) := scanPieces (r.data.splitOn lf)
  (lines, if long then some .tooLong else r.err.map .read)

theorem scanPieces_cons {piece : Bytes} {rest : List Bytes} (hlen : piece.length < maxScanTokenSize)
    (hne : piece ≠ [] ∨ rest ≠ []) :
    scanPieces (piece :: rest) = (dropCR piece :: (scanPieces rest).1, (scanPieces rest).2) := by
  rw [scanPieces, if_neg (by tauto), if_neg (by omega)]

theorem scanPieces_append {pieces rest : List Bytes}
    (hlen : ∀ piece ∈ pieces, piece.length < maxScanTokenSize) (hrest : rest ≠ []) :
    scanPieces (pieces ++ rest) =
      (pieces.map dropCR ++ (scanPieces rest).1, (scanPieces rest).2) := by
  induction pieces with
  | nil => rfl
  | cons piece pieces ih =>
    obtain ⟨hpiece, hpieces⟩ := List.forall_mem_cons.mp hlen
    have hne : pieces ++ rest ≠ [] := by simp [hrest]
    rw [List.cons_append, scanPieces_cons hpiece (Or.inr hne), ih hpieces]
    rfl

theorem length_lt_of_scanPieces {pieces : List Bytes} (h : (scanPieces pieces).2 = false) :
    ∀ piece ∈ pieces, piece.length < maxScanTokenSize := by
  induction pieces with
  | nil => simp
  | cons piece pieces ih =>
    rw [scanPieces] at h
    split at h
    · next hnil =>
        obtain ⟨rfl, rfl⟩ := hnil
        simp [maxScanTokenSize]
    · split at h
      · cases h
      · next hlen => exact List.forall_mem_cons.mpr ⟨by omega, ih h⟩

end AwgMesh
